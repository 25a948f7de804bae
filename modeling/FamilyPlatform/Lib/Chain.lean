import Mathlib.Data.List.Nodup

/-! Rows that name the row before them. A list of rows is linked when each names the
one it follows, and the first names none or one that is given. -/
namespace FamilyPlatform.Chain

variable {Row Key : Type} (id : Row → Key) (before : Row → Option Key)

def Linked : Option Key → List Row → Prop
  | _, [] => True
  | first, row :: rest => before row = first ∧ Linked (some (id row)) rest

instance decideLinked [DecidableEq Key] : (first : Option Key) → (rows : List Row) →
    Decidable (Linked id before first rows)
  | _, [] => .isTrue trivial
  | first, row :: rest =>
    have := decideLinked (some (id row)) rest
    inferInstanceAs (Decidable (before row = first ∧ _))

variable {id before}

theorem linkedMap {Source : Type} {f : Source → Row} {id' : Source → Key} {before' : Source → Option Key}
    {first : Option Key} {rows : List Source} (sameId : ∀ r, id (f r) = id' r)
    (sameBefore : ∀ r, before (f r) = before' r) :
    Linked id before first (rows.map f) ↔ Linked id' before' first rows := by
  induction rows generalizing first with
  | nil => rfl
  | cons r rest ih => simp only [List.map_cons,Linked,sameId,sameBefore,ih]

theorem linkedAppend {first : Option Key} {rows : List Row} {row : Row}
    (linked : Linked id before first rows)
    (next : before row = ((rows.getLast?).map id).or first) : Linked id before first (rows ++ [row]) := by
  induction rows generalizing first with
  | nil => exact ⟨by simpa using next,trivial⟩
  | cons r rest ih =>
    refine ⟨linked.1,ih linked.2 ?_⟩
    cases last : rest.getLast? <;> simp [List.getLast?_cons,last] at next ⊢ <;> exact next

theorem linkedBetween {first : Option Key} {rows : List Row} {row : Row} {key : Key}
    (linked : Linked id before first rows) (mem : row ∈ rows) (names : before row = some key) :
    (first = some key ∧ rows.head? = some row) ∨
      ∃ front previous back, rows = front ++ previous :: row :: back ∧ id previous = key := by
  induction rows generalizing first with
  | nil => cases mem
  | cons r rest ih =>
    rcases List.mem_cons.mp mem with rfl | later
    · exact .inl ⟨linked.1.symm.trans names,rfl⟩
    · rcases ih linked.2 later with ⟨same,head⟩ | ⟨front,previous,back,rfl,same⟩
      · cases rest with
        | nil => cases later
        | cons s back =>
          cases Option.some.inj head
          exact .inr ⟨[],r,back,rfl,Option.some.inj same⟩
      · exact .inr ⟨r :: front,previous,back,rfl,same⟩

theorem linkedNames {rows : List Row} {row : Row} {key : Key} (linked : Linked id before none rows)
    (mem : row ∈ rows) (names : before row = some key) : ∃ previous ∈ rows, id previous = key := by
  rcases linkedBetween linked mem names with ⟨none,-⟩ | ⟨front,previous,back,rfl,same⟩
  · cases none
  · exact ⟨previous,by simp,same⟩

theorem lastUnnamed {rows : List Row} {last row : Row} (linked : Linked id before none rows)
    (distinct : (rows.map id).Nodup) (at_ : rows.getLast? = some last) (mem : row ∈ rows) :
    before row ≠ some (id last) := by
  intro names
  rcases linkedBetween linked mem names with ⟨none,-⟩ | ⟨front,previous,back,rfl,same⟩
  · cases none
  · have later : last ∈ row :: back := by
      rw [List.getLast?_append_cons,List.getLast?_cons_cons] at at_
      exact List.mem_of_getLast? at_
    rw [List.map_append,List.map_cons,List.nodup_append,List.nodup_cons] at distinct
    exact distinct.2.1.1 (same ▸ List.mem_map_of_mem later)

theorem namesInside {r : Row} {rest : List Row} {row : Row} {key : Key}
    (linked : Linked id before (some (id r)) rest) (mem : row ∈ rest) (names : before row = some key) :
    key ∈ (r :: rest).map id := by
  rcases linkedBetween linked mem names with ⟨same,-⟩ | ⟨front,previous,back,rfl,same⟩
  · cases Option.some.inj same
    simp
  · rw [← same]
    exact List.mem_map_of_mem (by simp)

theorem linkedUnique {first : Option Key} {rows : List Row} {a b : Row} {key : Key}
    (linked : Linked id before first rows) (distinct : (rows.map id).Nodup)
    (outside : ∀ k, first = some k → k ∉ rows.map id) (left : a ∈ rows) (right : b ∈ rows)
    (namesA : before a = some key) (namesB : before b = some key) : a = b := by
  induction rows generalizing first with
  | nil => cases left
  | cons r rest ih =>
    have others := List.nodup_cons.mp distinct
    rcases List.mem_cons.mp left with rfl | leftLater <;>
      rcases List.mem_cons.mp right with rfl | rightLater
    · rfl
    · exact absurd (namesInside linked.2 rightLater namesB) (outside key (linked.1.symm.trans namesA))
    · exact absurd (namesInside linked.2 leftLater namesA) (outside key (linked.1.symm.trans namesB))
    · exact ih linked.2 others.2 (fun k same => Option.some.inj same ▸ others.1) leftLater rightLater

end FamilyPlatform.Chain
