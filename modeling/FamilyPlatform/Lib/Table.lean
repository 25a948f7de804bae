import Mathlib.Data.List.Nodup
import Mathlib.Data.List.Basic
import Mathlib.Data.List.Sort

/-! A table of rows under a primary key. Rows keep the order in which they were
inserted; no operation leaves two rows with one key. -/
namespace FamilyPlatform

variable {Row Key : Type} {key : Row → Key}

structure Table (Row : Type) {Key : Type} (key : Row → Key) where
  rows : List Row
  distinct : (rows.map key).Nodup

namespace Table

instance [DecidableEq Row] : DecidableEq (Table Row key) := fun t u =>
  decidable_of_iff (t.rows = u.rows) ⟨fun same => by cases t; cases u; cases same; rfl,fun same => same ▸ rfl⟩

def empty : Table Row key := ⟨[],List.nodup_nil⟩

@[simp] theorem emptyRows : (empty : Table Row key).rows = [] := rfl

theorem equalOfKey {t : Table Row key} {a b : Row} (left : a ∈ t.rows) (right : b ∈ t.rows)
    (same : key a = key b) : a = b :=
  List.inj_on_of_nodup_map t.distinct left right same

theorem rowsNodup (t : Table Row key) : t.rows.Nodup := t.distinct.of_map

theorem filterOne {t : Table Row key} {p : Row → Bool} {o : Row} (mem : o ∈ t.rows) (holds : p o)
    (unique : ∀ x ∈ t.rows, p x → x = o) : (t.rows.filter p).length = 1 := by
  have same : ∀ x ∈ t.rows.filter p, x = o := fun x source =>
    unique x (List.mem_of_mem_filter source) (List.mem_filter.mp source).2
  have rows : (t.rows.filter p).Nodup := t.rowsNodup.filter p
  have there : o ∈ t.rows.filter p := List.mem_filter.mpr ⟨mem,holds⟩
  match filtered : t.rows.filter p with
  | [] => simp [filtered] at there
  | [_] => rfl
  | a :: b :: rest =>
    rw [filtered] at same rows
    have twice : a = b := (same a (by simp)).trans (same b (by simp)).symm
    simp [twice] at rows

theorem filterTwo {t : Table Row key} {p : Row → Bool} (two : 2 ≤ (t.rows.filter p).length) :
    ∃ a ∈ t.rows, ∃ b ∈ t.rows, p a ∧ p b ∧ key a ≠ key b := by
  have rows : (t.rows.filter p).Nodup := t.rowsNodup.filter p
  match filtered : t.rows.filter p with
  | [] => simp [filtered] at two
  | [_] => simp [filtered] at two
  | a :: b :: rest =>
    rw [filtered] at rows
    obtain ⟨left,pa⟩ := List.mem_filter.mp (show a ∈ t.rows.filter p by simp [filtered])
    obtain ⟨right,pb⟩ := List.mem_filter.mp (show b ∈ t.rows.filter p by simp [filtered])
    have other : a ≠ b := fun same => by simp [same] at rows
    exact ⟨a,left,b,right,pa,pb,fun same => other (equalOfKey left right same)⟩

theorem selectedSame {t u : Table Row key} {p q : Row → Bool} {le : Row → Row → Prop} [DecidableRel le]
    [Std.Total le] [IsTrans Row le] (apart : ∀ a b, (a ∈ u.rows ∧ q a = true) → (b ∈ u.rows ∧ q b = true) →
      le a b → le b a → key a = key b)
    (same : ∀ r, (r ∈ t.rows ∧ p r = true) ↔ (r ∈ u.rows ∧ q r = true)) :
    (t.rows.filter p).insertionSort le = (u.rows.filter q).insertionSort le := by
  have perm : (t.rows.filter p).Perm (u.rows.filter q) := by
    refine (List.perm_ext_iff_of_nodup (t.rowsNodup.filter p) (u.rowsNodup.filter q)).mpr (fun r => ?_)
    rw [List.mem_filter,List.mem_filter]
    exact same r
  have sorted := ((List.perm_insertionSort le _).trans perm).trans (List.perm_insertionSort le _).symm
  refine sorted.eq_of_pairwise (fun a b left right ab ba => ?_) (List.pairwise_insertionSort le _)
    (List.pairwise_insertionSort le _)
  rw [List.mem_insertionSort,List.mem_filter] at left right
  exact equalOfKey ((same a).mp left).1 right.1 (apart a b ((same a).mp left) right ab ba)

variable [DecidableEq Key]

def find (t : Table Row key) (k : Key) : Option Row := t.rows.find? (fun r => key r = k)

theorem findSource {t : Table Row key} {k : Key} {r : Row} (found : t.find k = some r) :
    r ∈ t.rows ∧ key r = k :=
  ⟨List.mem_of_find?_eq_some found,by simpa using List.find?_some found⟩

theorem findAbsent {t : Table Row key} {k : Key} (none : t.find k = none) :
    ∀ r ∈ t.rows, key r ≠ k := by
  simpa [find] using none

theorem findMember {t : Table Row key} {r : Row} (mem : r ∈ t.rows) : t.find (key r) = some r := by
  cases found : t.find (key r) with
  | none => exact absurd rfl (findAbsent found r mem)
  | some other =>
    have source := findSource found
    rw [equalOfKey source.1 mem source.2]

theorem findFilter (t : Table Row key) (k : Key) (p : Row → Bool) :
    (t.find k).filter p = (t.rows.filter p).find? (fun r => key r = k) := by
  have distinct := t.distinct
  unfold find
  generalize t.rows = rows at distinct
  induction rows with
  | nil => rfl
  | cons r rest ih =>
    rw [List.map_cons,List.nodup_cons] at distinct
    have later := ih distinct.2
    by_cases is : key r = k
    · have absent : (rest.filter p).find? (fun r => key r = k) = none := by
        refine List.find?_eq_none.mpr (fun x mem => ?_)
        have other : key x ≠ k := fun same =>
          distinct.1 (is.trans same.symm ▸ List.mem_map_of_mem (List.mem_of_mem_filter mem))
        simpa using other
      by_cases passes : p r
      · simp [is,passes]
      · rw [List.filter_cons_of_neg passes,absent]
        simp [is,passes]
    · rw [List.find?_cons_of_neg (by simpa using is),later]
      by_cases passes : p r
      · rw [List.filter_cons_of_pos passes,List.find?_cons_of_neg (by simpa using is)]
      · rw [List.filter_cons_of_neg passes]

def insert (t : Table Row key) (row : Row) : Option (Table Row key) :=
  if fresh : key row ∉ t.rows.map key then
    some ⟨t.rows ++ [row],by
      rw [List.map_append,List.nodup_append]
      refine ⟨t.distinct,List.nodup_singleton _,?_⟩
      rintro a left b right rfl
      rw [List.map_singleton,List.mem_singleton] at right
      exact fresh (right ▸ left)⟩
  else none

theorem insertRows {t next : Table Row key} {row : Row} (inserted : t.insert row = some next) :
    next.rows = t.rows ++ [row] ∧ ∀ r ∈ t.rows, key r ≠ key row := by
  unfold insert at inserted
  split at inserted <;> try contradiction
  rename_i fresh
  cases Option.some.inj inserted
  exact ⟨rfl,fun r mem same => fresh (same ▸ List.mem_map_of_mem mem)⟩

theorem insertFresh {t : Table Row key} {row : Row} (fresh : ∀ r ∈ t.rows, key r ≠ key row) :
    ∃ next, t.insert row = some next := by
  have absent : key row ∉ t.rows.map key := by
    rintro mem
    obtain ⟨r,source,same⟩ := List.mem_map.mp mem
    exact fresh r source same
  exact ⟨_,dif_pos absent⟩

def update (t : Table Row key) (k : Key) (f : Row → Row) (keeps : ∀ r, key (f r) = key r) :
    Table Row key :=
  ⟨t.rows.map (fun r => if key r = k then f r else r),by
    have same : (key ∘ fun r => if key r = k then f r else r) = key := by
      funext r
      simp only [Function.comp]
      split
      · exact keeps r
      · rfl
    rw [List.map_map,same]
    exact t.distinct⟩

theorem memUpdate {t : Table Row key} {k : Key} {f : Row → Row} {keeps : ∀ r, key (f r) = key r}
    {x : Row} : x ∈ (t.update k f keeps).rows ↔
      (x ∈ t.rows ∧ key x ≠ k) ∨ ∃ r ∈ t.rows, key r = k ∧ x = f r := by
  constructor
  · intro mem
    obtain ⟨r,source,same⟩ := List.mem_map.mp mem
    split at same
    · rename_i at_
      exact .inr ⟨r,source,at_,same.symm⟩
    · rename_i other
      exact .inl ⟨same ▸ source,same ▸ other⟩
  · rintro (⟨source,other⟩ | ⟨r,source,at_,rfl⟩)
    · exact List.mem_map.mpr ⟨x,source,if_neg other⟩
    · exact List.mem_map.mpr ⟨r,source,if_pos at_⟩

theorem findInsert {t next : Table Row key} {row : Row} (inserted : t.insert row = some next) (k : Key) :
    next.find k = if k = key row then some row else t.find k := by
  obtain ⟨rows,fresh⟩ := insertRows inserted
  unfold find
  rw [rows,List.find?_append]
  by_cases same : k = key row
  · subst same
    have absent : t.rows.find? (fun r => key r = key row) = none := by simpa using fresh
    simp [absent]
  · have other : ¬ key row = k := fun is => same is.symm
    simp [same,other]

theorem findUpdate (t : Table Row key) (k j : Key) (f : Row → Row) (keeps : ∀ r, key (f r) = key r) :
    (t.update k f keeps).find j = if j = k then (t.find k).map f else t.find j := by
  have same : ((fun r : Row => decide (key r = j)) ∘ fun r => if key r = k then f r else r) =
      fun r => decide (key r = j) := by
    funext r
    simp only [Function.comp]
    split <;> simp [keeps]
  unfold find update
  rw [List.find?_map,same]
  cases found : t.rows.find? (fun r => key r = j) with
  | none =>
    split
    · rename_i is
      rw [← is,found]
      rfl
    · rfl
  | some r =>
    have is : key r = j := by simpa using List.find?_some found
    by_cases at_ : j = k
    · rw [← at_,found]
      simp [is]
    · simp [is,at_]

def updateWhere (t : Table Row key) (p : Row → Bool) (f : Row → Row) (keeps : ∀ r, key (f r) = key r) :
    Table Row key :=
  ⟨t.rows.map (fun r => if p r then f r else r),by
    have same : (key ∘ fun r => if p r then f r else r) = key := by
      funext r
      simp only [Function.comp]
      split
      · exact keeps r
      · rfl
    rw [List.map_map,same]
    exact t.distinct⟩

theorem findUpdateWhere (t : Table Row key) (p : Row → Bool) (f : Row → Row) (keeps : ∀ r, key (f r) = key r) (k : Key) :
    (t.updateWhere p f keeps).find k = (t.find k).map (fun r => if p r then f r else r) := by
  have same : ((fun r : Row => decide (key r = k)) ∘ fun r => if p r then f r else r) = fun r => decide (key r = k) := by
    funext r
    simp only [Function.comp]
    split <;> simp [keeps]
  unfold find updateWhere
  rw [List.find?_map,same]

def deleteWhere (t : Table Row key) (p : Row → Bool) : Table Row key :=
  ⟨t.rows.filter (fun r => !p r),t.distinct.sublist (List.filter_sublist.map key)⟩

def append (t : Table Row key) (fresh : List Row) (apart : (fresh.map key).Nodup)
    (free : ∀ r ∈ fresh, t.find (key r) = none) : Table Row key :=
  ⟨t.rows ++ fresh,by
    rw [List.map_append,List.nodup_append]
    refine ⟨t.distinct,apart,?_⟩
    rintro a left b right rfl
    obtain ⟨r,source,rfl⟩ := List.mem_map.mp right
    obtain ⟨old,there,same⟩ := List.mem_map.mp left
    exact findAbsent (free r source) old there same⟩

def upsert (t : Table Row key) (row : Row) (f : Row → Row) (keeps : ∀ r, key (f r) = key r) :
    Table Row key :=
  match t.insert row with
  | some next => next
  | none => t.update (key row) f keeps

theorem memUpsert {t : Table Row key} {row : Row} {f : Row → Row} {keeps : ∀ r, key (f r) = key r}
    {x : Row} : x ∈ (t.upsert row f keeps).rows ↔
      (x ∈ t.rows ∧ key x ≠ key row) ∨
        ((∀ r ∈ t.rows, key r ≠ key row) ∧ x = row) ∨ ∃ r ∈ t.rows, key r = key row ∧ x = f r := by
  unfold upsert
  cases inserted : t.insert row with
  | some next =>
    obtain ⟨rows,fresh⟩ := insertRows inserted
    simp only [rows,List.mem_append,List.mem_singleton]
    constructor
    · rintro (old | rfl)
      · exact .inl ⟨old,fresh x old⟩
      · exact .inr (.inl ⟨fresh,rfl⟩)
    · rintro (⟨old,-⟩ | ⟨-,rfl⟩ | ⟨r,source,same,-⟩)
      · exact .inl old
      · exact .inr rfl
      · exact absurd same (fresh r source)
  | none =>
    simp only [memUpdate]
    constructor
    · rintro (old | new)
      · exact .inl old
      · exact .inr (.inr new)
    · rintro (old | ⟨fresh,-⟩ | new)
      · exact .inl old
      · obtain ⟨next,ok⟩ := insertFresh fresh
        rw [ok] at inserted
        cases inserted
      · exact .inr new

theorem findUpsert (t : Table Row key) (row : Row) (f : Row → Row) (keeps : ∀ r, key (f r) = key r) (k : Key) :
    (t.upsert row f keeps).find k = if k = key row then some ((t.find k).elim row f) else t.find k := by
  unfold upsert
  cases inserted : t.insert row with
  | some next =>
    simp only [findInsert inserted]
    split
    · rename_i same
      have absent : t.find k = none := by
        rw [same]
        exact List.find?_eq_none.mpr (by simpa using (insertRows inserted).2)
      rw [absent]
      rfl
    · rfl
  | none =>
    simp only [findUpdate]
    split
    · rename_i same
      subst same
      cases found : t.find (key row) with
      | some r => rfl
      | none =>
        obtain ⟨next,ok⟩ := insertFresh (findAbsent found)
        rw [ok] at inserted
        cases inserted
    · rfl

theorem filterUpsert (t : Table Row key) {row : Row} {f : Row → Row} {keeps : ∀ r, key (f r) = key r} {p : Row → Bool}
    (out : p row = false) (spared : ∀ r ∈ t.rows, key r = key row → p r = false ∧ p (f r) = false) :
    (t.upsert row f keeps).rows.filter p = t.rows.filter p := by
  unfold upsert
  cases inserted : t.insert row with
  | some next => simp [(insertRows inserted).1,out]
  | none =>
    have rows : ∀ rs : List Row, (∀ r ∈ rs, r ∈ t.rows) →
        (rs.map (fun r => if key r = key row then f r else r)).filter p = rs.filter p := by
      intro rs sub
      induction rs with
      | nil => rfl
      | cons r rest ih =>
        have later := ih (fun x mem => sub x (List.mem_cons_of_mem r mem))
        rw [List.map_cons,List.filter_cons,List.filter_cons,later]
        split
        · rename_i same
          obtain ⟨old,new⟩ := spared r (sub r List.mem_cons_self) same
          simp only [old,new]
          rfl
        · rfl
    exact rows t.rows (fun _ mem => mem)

theorem hasRow {t : Table Row key} {k : Key} : (t.find k).isSome ↔ ∃ r ∈ t.rows, key r = k := by
  simp [find]

theorem deleteUpsert (t : Table Row key) {row : Row} {f : Row → Row} {keeps : ∀ r, key (f r) = key r} {p : Row → Bool}
    (other : p row = false) (spared : ∀ r ∈ t.rows, key r = key row → p r = false ∧ p (f r) = false) :
    (t.upsert row f keeps).deleteWhere p = (t.deleteWhere p).upsert row f keeps := by
  have rows : ((t.upsert row f keeps).deleteWhere p).rows = ((t.deleteWhere p).upsert row f keeps).rows := by
    unfold upsert
    cases inserted : t.insert row with
    | some next =>
      obtain ⟨grown,fresh⟩ := insertRows inserted
      have still (r : Row) (mem : r ∈ (t.deleteWhere p).rows) : key r ≠ key row := fresh r (List.mem_of_mem_filter mem)
      obtain ⟨less,inserted⟩ := insertFresh still
      simp only [inserted,(insertRows inserted).1]
      simp [deleteWhere,grown,other]
    | none =>
      have stays : (t.deleteWhere p).insert row = none := by
        cases inserted' : (t.deleteWhere p).insert row with
        | none => rfl
        | some next =>
          have fresh (r : Row) (mem : r ∈ t.rows) (same : key r = key row) : False :=
            (insertRows inserted').2 r (List.mem_filter.mpr ⟨mem,by simp [(spared r mem same).1]⟩) same
          obtain ⟨grown,ok⟩ := insertFresh fresh
          rw [ok] at inserted
          cases inserted
      simp only [stays]
      simp only [deleteWhere,update,List.filter_map]
      refine congrArg _ (List.filter_congr (fun r mem => ?_))
      simp only [Function.comp]
      split
      · rename_i same
        rw [(spared r mem same).1,(spared r mem same).2]
      · rfl
  cases one : (t.upsert row f keeps).deleteWhere p
  cases two : (t.deleteWhere p).upsert row f keeps
  rw [one,two] at rows
  cases rows
  rfl

end Table
end FamilyPlatform
