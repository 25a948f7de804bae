import FamilyPlatform.Lib.Table

/-! Pages of a list in a strict order, each asked for by the last row of the one before. Whoever follows the cursors is
given the whole list, once, or nothing where a row of it does not load. -/
namespace FamilyPlatform.Paging

variable {Row Item Cursor : Type}

structure Page (Item Cursor : Type) where
  items : List Item
  next : Option Cursor
  deriving DecidableEq, Repr

def follow (fetch : Option Cursor → Option (Page Item Cursor)) : Nat → Option Cursor → Option (List Item)
  | 0, _ => none
  | fuel + 1, after =>
    match fetch after with
    | none => none
    | some ⟨items,none⟩ => some items
    | some ⟨items,some next⟩ => (follow fetch fuel (some next)).map (items ++ ·)

/- One row more than asked for is loaded, and tells whether there is a next page. -/
def pageOf (limit : Nat) (load : Row → Option Item) (cursorOf : Row → Cursor) (rows : List Row) :
    Option (Page Item Cursor) :=
  ((rows.take (limit + 1)).mapM load).map (fun items =>
    ⟨items.take limit,if limit < rows.length then ((rows.take limit).getLast?).map cursorOf else none⟩)

/- The first page is of all rows, and the one after a row of those that come later. -/
structure Keyset (lt : Row → Row → Prop) [DecidableRel lt] (limit : Nat) (load : Row → Option Item)
    (cursorOf : Row → Cursor) (rows : List Row) (fetch : Option Cursor → Option (Page Item Cursor)) : Prop where
  ordered : rows.Pairwise lt
  apart : ∀ a ∈ rows, ∀ b ∈ rows, lt a b → ¬ lt b a
  first : fetch none = pageOf limit load cursorOf rows
  later : ∀ r ∈ rows, fetch (some (cursorOf r)) = pageOf limit load cursorOf (rows.filter (lt r))

section
variable {lt : Row → Row → Prop} [DecidableRel lt] {limit : Nat} {load : Row → Option Item} {cursorOf : Row → Cursor}
  {rows before after : List Row} {fetch : Option Cursor → Option (Page Item Cursor)} {r : Row}

theorem filterAfter (ordered : (before ++ r :: after).Pairwise lt)
    (apart : ∀ a ∈ before ++ r :: after, ∀ b ∈ before ++ r :: after, lt a b → ¬ lt b a) :
    (before ++ r :: after).filter (lt r) = after := by
  have own : r ∈ before ++ r :: after := List.mem_append_right _ List.mem_cons_self
  obtain ⟨-,tail,earlier⟩ := List.pairwise_append.mp ordered
  have none_ : before.filter (fun b => lt r b) = [] := by
    refine List.filter_eq_nil_iff.mpr (fun b mem => ?_)
    have less := earlier b mem r List.mem_cons_self
    simpa using apart b (List.mem_append_left _ mem) r own less
  have self : ¬ lt r r := fun same => apart r own r own same same
  have all : after.filter (fun a => lt r a) = after :=
    List.filter_eq_self.mpr (fun a mem => by simpa using (List.pairwise_cons.mp tail).1 a mem)
  rw [List.filter_append,none_,List.nil_append,List.filter_cons_of_neg (by simpa using self),all]

theorem mapMParts (n : Nat) : rows.mapM load =
    ((rows.take n).mapM load).bind (fun items => ((rows.drop n).mapM load).map (items ++ ·)) := by
  conv_lhs => rw [← List.take_append_drop n rows,List.mapM_append]
  cases (rows.take n).mapM load with
  | none => rfl
  | some items => cases (rows.drop n).mapM load <;> rfl

theorem mapMLength {items : List Item} (ok : rows.mapM load = some items) : items.length = rows.length := by
  induction rows generalizing items with
  | nil =>
    cases ok
    rfl
  | cons r rest ih =>
    rw [List.mapM_cons] at ok
    obtain ⟨item,-,ok⟩ := Option.bind_eq_some_iff.mp ok
    obtain ⟨tail,loaded,is⟩ := Option.bind_eq_some_iff.mp ok
    cases is
    rw [List.length_cons,List.length_cons,ih loaded]

theorem mapMTake {items : List Item} (ok : rows.mapM load = some items) (n : Nat) :
    (rows.take n).mapM load = some (items.take n) := by
  have parts := @mapMParts Row Item load rows n
  rw [ok] at parts
  cases first : (rows.take n).mapM load with
  | none =>
    rw [first] at parts
    cases parts
  | some page =>
    rw [first,Option.bind_some] at parts
    obtain ⟨tail,-,is⟩ := Option.map_eq_some_iff.mp parts.symm
    have length := mapMLength first
    rw [List.length_take] at length
    rcases Nat.le_total n rows.length with short | long
    · rw [Nat.min_eq_left short] at length
      rw [← is,← length,List.take_left]
    · rw [List.take_of_length_le long,ok] at first
      rw [List.take_of_length_le (mapMLength ok ▸ long),Option.some.inj first]

/- Where the page is full the last of its rows is the cursor, and the next page begins after it. -/
theorem fullPage (keyset : Keyset lt limit load cursorOf rows fetch) (positive : 0 < limit) {rest : List Row}
    (split : rows = before ++ rest) (more : limit < rest.length) :
    ∃ page last, rest.take limit = page ++ [last] ∧ rows = ((before ++ page) ++ [last]) ++ rest.drop limit ∧
      fetch (some (cursorOf last)) = pageOf limit load cursorOf (rest.drop limit) := by
  obtain ⟨last,isLast⟩ : ∃ last, (rest.take limit).getLast? = some last := by
    cases found : (rest.take limit).getLast? with
    | some last => exact ⟨last,rfl⟩
    | none =>
      have empty := congrArg List.length (List.getLast?_eq_none_iff.mp found)
      rw [List.length_take,List.length_nil] at empty
      omega
  obtain ⟨page,is⟩ := List.getLast?_eq_some_iff.mp isLast
  have whole : rows = (before ++ page) ++ last :: rest.drop limit := by
    rw [split]
    conv_lhs => rw [← List.take_append_drop limit rest,is]
    simp only [List.append_assoc,List.cons_append,List.nil_append]
  have ordered := keyset.ordered
  have apart := keyset.apart
  have there : last ∈ rows := by
    rw [whole]
    exact List.mem_append_right _ List.mem_cons_self
  have next := keyset.later last there
  rw [whole] at ordered apart
  rw [whole,filterAfter ordered apart] at next
  exact ⟨page,last,is,by rw [whole,List.append_assoc _ [last],List.singleton_append],next⟩

theorem followRest (keyset : Keyset lt limit load cursorOf rows fetch) (positive : 0 < limit) {fuel : Nat}
    {cursor : Option Cursor} {rest : List Row} (split : rows = before ++ rest)
    (fetched : fetch cursor = pageOf limit load cursorOf rest) (enough : rest.length < fuel) :
    follow fetch fuel cursor = rest.mapM load := by
  induction fuel generalizing before rest cursor with
  | zero => exact absurd enough (Nat.not_lt_zero _)
  | succ fuel ih =>
    unfold follow
    rw [fetched,pageOf]
    cases loaded : (rest.take (limit + 1)).mapM load with
    | none =>
      rw [mapMParts (limit + 1),loaded]
      rfl
    | some items =>
      rw [Option.map_some]
      by_cases more : limit < rest.length
      · obtain ⟨page,last,is,whole,next⟩ := fullPage keyset positive split more
        have shorter : (rest.drop limit).length < fuel := by
          rw [List.length_drop]
          omega
        have taken : (rest.take limit).mapM load = some (items.take limit) := by
          have part := mapMTake loaded limit
          rwa [List.take_take,Nat.min_eq_left (Nat.le_succ limit)] at part
        rw [if_pos more,is,List.getLast?_concat]
        simp only [Option.map_some]
        rw [ih whole next shorter,@mapMParts Row Item load rest limit,taken,Option.bind_some]
      · have all : rest.take (limit + 1) = rest := List.take_of_length_le (by omega)
        rw [all] at loaded
        have short : items.length ≤ limit := mapMLength loaded ▸ Nat.not_lt.mp more
        rw [if_neg more]
        simp only
        rw [loaded,List.take_of_length_le short]

/-- Whoever follows the cursors from the first page on is given all rows in their order, each once. -/
theorem followAll (keyset : Keyset lt limit load cursorOf rows fetch) (positive : 0 < limit) {fuel : Nat}
    (enough : rows.length < fuel) : follow fetch fuel none = rows.mapM load :=
  @followRest Row Item Cursor lt _ limit load cursorOf rows [] fetch keyset positive fuel none rows rfl keyset.first enough

theorem mapMAll : (∃ items, rows.mapM load = some items) ↔ ∀ r ∈ rows, (load r).isSome = true := by
  induction rows with
  | nil => simp
  | cons r rest ih =>
    rw [List.mapM_cons,List.forall_mem_cons,← ih]
    cases load r with
    | none => simp
    | some item => cases rest.mapM load <;> simp

theorem mapMMem {items : List Item} (loaded : rows.mapM load = some items) {item : Item} :
    item ∈ items ↔ ∃ r ∈ rows, load r = some item := by
  induction rows generalizing items with
  | nil =>
    cases loaded
    simp
  | cons r rest ih =>
    rw [List.mapM_cons] at loaded
    obtain ⟨first,is,loaded⟩ := Option.bind_eq_some_iff.mp loaded
    obtain ⟨tail,later,same⟩ := Option.bind_eq_some_iff.mp loaded
    cases same
    rw [List.mem_cons,ih later]
    constructor
    · rintro (rfl | ⟨other,there,loads⟩)
      · exact ⟨r,List.mem_cons_self,is⟩
      · exact ⟨other,List.mem_cons_of_mem r there,loads⟩
    · rintro ⟨other,there,loads⟩
      rcases List.mem_cons.mp there with rfl | there
      · exact .inl (Option.some.inj (loads.symm.trans is))
      · exact .inr ⟨other,there,loads⟩

theorem mapMPairwise {items : List Item} (loaded : rows.mapM load = some items) {R : Row → Row → Prop}
    {S : Item → Item → Prop} (ordered : rows.Pairwise R)
    (keeps : ∀ a ∈ rows, ∀ b ∈ rows, R a b → ∀ x y, load a = some x → load b = some y → S x y) : items.Pairwise S := by
  induction rows generalizing items with
  | nil =>
    cases loaded
    exact .nil
  | cons r rest ih =>
    rw [List.mapM_cons] at loaded
    obtain ⟨first,is,loaded⟩ := Option.bind_eq_some_iff.mp loaded
    obtain ⟨tail,later,same⟩ := Option.bind_eq_some_iff.mp loaded
    cases same
    obtain ⟨ahead,others⟩ := List.pairwise_cons.mp ordered
    refine List.pairwise_cons.mpr ⟨fun item mem => ?_,ih later others (fun a memA b memB =>
      keeps a (List.mem_cons_of_mem r memA) b (List.mem_cons_of_mem r memB))⟩
    obtain ⟨b,there,loadedB⟩ := (mapMMem later).mp mem
    exact keeps r List.mem_cons_self b (List.mem_cons_of_mem r there) (ahead b there) first item is loadedB

theorem mapMLast {items : List Item} (loaded : rows.mapM load = some items) {last : Row}
    (isLast : rows.getLast? = some last) : ∃ item, items.getLast? = some item ∧ load last = some item := by
  obtain ⟨before,rfl⟩ := List.getLast?_eq_some_iff.mp isLast
  rw [List.mapM_append] at loaded
  obtain ⟨first,-,loaded⟩ := Option.bind_eq_some_iff.mp loaded
  obtain ⟨tail,one,same⟩ := Option.bind_eq_some_iff.mp loaded
  cases same
  rw [List.mapM_cons,List.mapM_nil] at one
  obtain ⟨item,is,one⟩ := Option.bind_eq_some_iff.mp one
  cases one
  exact ⟨item,by simp,is⟩

end

section
variable {Key : Type} {key : Row → Key} {le : Row → Row → Prop}

def Strict (key : Row → Key) (le : Row → Row → Prop) (a b : Row) : Prop := le a b ∧ key a ≠ key b

instance [DecidableEq Key] [DecidableRel le] : DecidableRel (Strict key le) := fun _ _ => instDecidableAnd

variable [DecidableRel le] [Std.Total le] [IsTrans Row le] {t : Table Row key} {p q : Row → Bool}
  {limit : Nat} {load : Row → Option Item} {cursorOf : Row → Cursor} {fetch : Option Cursor → Option (Page Item Cursor)}

theorem filterSorted (apart : ∀ a b, le a b → le b a → key a = key b) :
    ((t.rows.filter p).insertionSort le).filter q = (t.rows.filter (fun r => p r && q r)).insertionSort le := by
  have perm : (((t.rows.filter p).insertionSort le).filter q).Perm (t.rows.filter (fun r => p r && q r)) := by
    have same := (List.perm_insertionSort le (t.rows.filter p)).filter q
    rw [List.filter_filter] at same
    simpa only [Bool.and_comm] using same
  refine (perm.trans (List.perm_insertionSort le _).symm).eq_of_pairwise (fun a b left right ab ba => ?_)
    ((List.pairwise_insertionSort le _).filter q) (List.pairwise_insertionSort le _)
  have there := List.mem_of_mem_filter ((List.mem_insertionSort le).mp (List.mem_of_mem_filter left))
  have there' := List.mem_of_mem_filter ((List.mem_insertionSort le).mp right)
  exact Table.equalOfKey there there' (apart a b ab ba)

theorem tableKeyset [DecidableEq Key] (apart : ∀ a b, le a b → le b a → key a = key b)
    (first : fetch none = pageOf limit load cursorOf ((t.rows.filter p).insertionSort le))
    (later : ∀ r ∈ t.rows, p r = true → ∃ after : Row → Bool,
      (∀ x ∈ t.rows, p x = true → (after x = true ↔ Strict key le r x)) ∧
      fetch (some (cursorOf r)) = pageOf limit load cursorOf ((t.rows.filter (fun x => p x && after x)).insertionSort le)) :
    Keyset (Strict key le) limit load cursorOf ((t.rows.filter p).insertionSort le) fetch := by
  have source : ∀ r ∈ (t.rows.filter p).insertionSort le, r ∈ t.rows ∧ p r = true :=
    fun r mem => List.mem_filter.mp ((List.mem_insertionSort le).mp mem)
  have distinct : ((t.rows.filter p).insertionSort le).Pairwise (fun a b => key a ≠ key b) := by
    have kept : ((t.rows.filter p).map key).Nodup := t.distinct.sublist (List.filter_sublist.map key)
    rw [← ((List.perm_insertionSort le (t.rows.filter p)).map key).nodup_iff] at kept
    exact List.pairwise_map.mp kept
  refine ⟨(List.pairwise_insertionSort le _).and distinct,fun a _ b _ ab ba => ab.2 (apart a b ab.1 ba.1),first,
    fun r mem => ?_⟩
  obtain ⟨there,selected⟩ := source r mem
  obtain ⟨after,is,fetched⟩ := later r there selected
  rw [fetched,← filterSorted apart]
  congr 1
  refine List.filter_congr (fun x memX => ?_)
  rw [Bool.eq_iff_iff,decide_eq_true_eq]
  exact is x (source x memX).1 (source x memX).2

end
end FamilyPlatform.Paging
