import FamilyPlatform.Lib.Chain

/-! What a series of tasks is: links in one chain, each naming the one before it, of
which at most the last is the head. How it starts, is edited and is handed on. -/
namespace FamilyPlatform.Tasks
open Chain (Linked)

/- A task as its series sees it: whether it has a rule, an anchor and a due date. -/
structure Link where
  id : Nat
  seriesId : Option Nat
  predecessorId : Option Nat
  isSeriesHead : Bool
  ruled : Bool
  anchored : Bool
  dated : Bool
  deriving DecidableEq, Repr

namespace Link

structure Recurring (l : Link) : Prop where
  anchor : l.anchored = l.ruled
  series : l.ruled → l.seriesId.isSome
  head : l.isSeriesHead → l.ruled

structure Shaped (l : Link) : Prop extends Recurring l where
  dated : l.ruled → l.dated

structure Keeps (a b : Link) : Prop where
  id : b.id = a.id
  predecessor : b.predecessorId = a.predecessorId
  series : b.seriesId = a.seriesId
  head : b.isSeriesHead → a.isSeriesHead

def relinquished (l : Link) : Link := { l with isSeriesHead := false }

structure Starts (issued : Nat) (a b : Link) : Prop where
  id : b.id = a.id
  predecessor : b.predecessorId = a.predecessorId
  loose : a.seriesId = none
  series : b.seriesId = some issued

end Link

def seriesOf (links : List Link) (series : Nat) : List Link :=
  links.filter (fun l => l.seriesId = some series)

structure Chained (issued : Nat) (links : List Link) : Prop where
  distinct : (links.map Link.id).Nodup
  shaped : ∀ l ∈ links, l.Shaped
  ids : ∀ l ∈ links, l.id < issued
  drawn : ∀ l ∈ links, ∀ series, l.seriesId = some series → series < issued
  loose : ∀ l ∈ links, l.seriesId = none → l.predecessorId = none
  linked : ∀ series, Linked Link.id Link.predecessorId none (seriesOf links series)
  headLast : ∀ series, ∀ l ∈ seriesOf links series, l.isSeriesHead → (seriesOf links series).getLast? = some l

def replace (links : List Link) (b : Link) : List Link := links.map (fun l => if l.id = b.id then b else l)

theorem chainedEmpty : Chained 0 [] := by
  constructor <;> simp [seriesOf,Linked]

theorem memSeries {links : List Link} {series : Nat} {l : Link} :
    l ∈ seriesOf links series ↔ l ∈ links ∧ l.seriesId = some series := by
  simp [seriesOf]

theorem seriesDistinct {links : List Link} (distinct : (links.map Link.id).Nodup) (series : Nat) :
    ((seriesOf links series).map Link.id).Nodup :=
  distinct.sublist ((List.filter_sublist).map Link.id)

namespace Chained

variable {issued : Nat} {links : List Link}

theorem later (c : Chained issued links) {n : Nat} (le : issued ≤ n) : Chained n links :=
  { c with
    ids := fun l mem => Nat.lt_of_lt_of_le (c.ids l mem) le
    drawn := fun l mem series same => Nat.lt_of_lt_of_le (c.drawn l mem series same) le }

theorem equalOfId (c : Chained issued links) {a b : Link} (left : a ∈ links) (right : b ∈ links)
    (same : a.id = b.id) : a = b :=
  List.inj_on_of_nodup_map c.distinct left right same

theorem oneHead (c : Chained issued links) {a b : Link} {series : Nat} (left : a ∈ links)
    (right : b ∈ links) (inA : a.seriesId = some series) (inB : b.seriesId = some series)
    (headA : a.isSeriesHead) (headB : b.isSeriesHead) : a = b := by
  have lastA := c.headLast series a (memSeries.mpr ⟨left,inA⟩) headA
  have lastB := c.headLast series b (memSeries.mpr ⟨right,inB⟩) headB
  exact Option.some.inj (lastA.symm.trans lastB)

theorem inSeries (c : Chained issued links) {l : Link} {p : Nat} (mem : l ∈ links)
    (names : l.predecessorId = some p) : ∃ series, l.seriesId = some series := by
  cases same : l.seriesId with
  | some series => exact ⟨series,rfl⟩
  | none =>
    rw [c.loose l mem same] at names
    cases names

theorem namedMember (c : Chained issued links) {a l : Link} {series : Nat} (named : a ∈ links)
    (mem : l ∈ links) (names : l.predecessorId = some a.id) (member : l.seriesId = some series) :
    a.seriesId = some series := by
  obtain ⟨previous,source,same⟩ := Chain.linkedNames (c.linked series) (memSeries.mpr ⟨mem,member⟩) names
  have there := memSeries.mp source
  rw [← c.equalOfId there.1 named same]
  exact there.2

theorem onePredecessor (c : Chained issued links) {a b : Link} {p : Nat} (left : a ∈ links)
    (right : b ∈ links) (namesA : a.predecessorId = some p) (namesB : b.predecessorId = some p) : a = b := by
  obtain ⟨series,inA⟩ := c.inSeries left namesA
  obtain ⟨other,inB⟩ := c.inSeries right namesB
  obtain ⟨previous,source,same⟩ := Chain.linkedNames (c.linked series) (memSeries.mpr ⟨left,inA⟩) namesA
  have there := memSeries.mp source
  have both : previous.seriesId = some other := c.namedMember there.1 right (same ▸ namesB) inB
  cases there.2.symm.trans both
  exact Chain.linkedUnique (c.linked series) (seriesDistinct c.distinct series) (by simp)
    (memSeries.mpr ⟨left,inA⟩) (memSeries.mpr ⟨right,inB⟩) namesA namesB

theorem namedNoHead (c : Chained issued links) {a l : Link} (named : a ∈ links) (mem : l ∈ links)
    (names : l.predecessorId = some a.id) : a.isSeriesHead = false := by
  obtain ⟨series,member⟩ := c.inSeries mem names
  have same : a.seriesId = some series := c.namedMember named mem names member
  by_contra head
  have last := c.headLast series a (memSeries.mpr ⟨named,same⟩) (by simpa using head)
  exact Chain.lastUnnamed (c.linked series) (seriesDistinct c.distinct series) last
    (memSeries.mpr ⟨mem,member⟩) names

end Chained

theorem memReplace {links : List Link} {b l : Link} (mem : l ∈ replace links b) :
    l = b ∨ (l ∈ links ∧ l.id ≠ b.id) := by
  obtain ⟨x,source,same⟩ := List.mem_map.mp mem
  split at same
  · exact .inl same.symm
  · subst same
    exact .inr ⟨source,by assumption⟩

theorem replaceIds (links : List Link) (b : Link) : (replace links b).map Link.id = links.map Link.id := by
  rw [replace,List.map_map]
  refine List.map_congr_left (fun l _ => ?_)
  simp only [Function.comp]
  split
  · exact Eq.symm (by assumption)
  · rfl

theorem replaceSeries {issued : Nat} {links : List Link} {a b : Link} (c : Chained issued links) (mem : a ∈ links)
    (sameId : b.id = a.id) (same : b.seriesId = a.seriesId) (series : Nat) :
    seriesOf (replace links b) series = replace (seriesOf links series) b := by
  rw [seriesOf,seriesOf,replace,replace,List.filter_map]
  refine congrArg (List.map _) (List.filter_congr (fun l source => ?_))
  simp only [Function.comp]
  split
  · rename_i at_
    rw [c.equalOfId source mem (at_.trans sameId),same]
  · rfl

theorem replaceLinked {issued : Nat} {links : List Link} {a b : Link} (c : Chained issued links)
    (mem : a ∈ links) (sameId : b.id = a.id) (samePredecessor : b.predecessorId = a.predecessorId)
    (series : Nat) :
    Linked Link.id Link.predecessorId none (replace (seriesOf links series) b) := by
  have same : replace (seriesOf links series) b =
      (seriesOf links series).map (fun l => if l = a then b else l) := by
    refine List.map_congr_left (fun l source => ?_)
    have iff : l.id = b.id ↔ l = a :=
      ⟨fun at_ => c.equalOfId (memSeries.mp source).1 mem (at_.trans sameId),fun at_ => at_ ▸ sameId.symm⟩
    simp only [iff]
  rw [same]
  refine (Chain.linkedMap (fun l => ?_) (fun l => ?_)).mpr (c.linked series)
  · split
    · rename_i at_
      rw [at_,sameId]
    · rfl
  · split
    · rename_i at_
      rw [at_,samePredecessor]
    · rfl

theorem seriesAppend (links : List Link) (b : Link) (series : Nat) :
    seriesOf (links ++ [b]) series = seriesOf links series ++ if b.seriesId = some series then [b] else [] := by
  rw [seriesOf,List.filter_append]
  by_cases same : b.seriesId = some series <;> simp [seriesOf,same]

theorem onlyMember {links : List Link} {b : Link} (distinct : (links.map Link.id).Nodup) (mem : b ∈ links)
    (only : ∀ l ∈ links, l = b) : links = [b] := by
  have one : links.length = 1 :=
    Nat.le_antisymm (List.nodup_replicate.mp (List.eq_replicate_of_mem only ▸ distinct.of_map))
      (List.length_pos_of_mem mem)
  rw [List.eq_replicate_of_mem only,one]
  rfl

namespace Chained

variable {issued : Nat} {links : List Link}

theorem undrawn (c : Chained issued links) : seriesOf links issued = [] :=
  List.eq_nil_iff_forall_not_mem.mpr (fun l mem =>
    Nat.lt_irrefl issued (c.drawn l (memSeries.mp mem).1 issued (memSeries.mp mem).2))

theorem keeps (c : Chained issued links) {a b : Link} (mem : a ∈ links) (edit : a.Keeps b) (shaped : b.Shaped) :
    Chained issued (replace links b) where
  distinct := by rw [replaceIds]; exact c.distinct
  shaped l source := by
    rcases memReplace source with rfl | ⟨old,-⟩
    · exact shaped
    · exact c.shaped l old
  ids l source := by
    rcases memReplace source with rfl | ⟨old,-⟩
    · rw [edit.id]; exact c.ids a mem
    · exact c.ids l old
  drawn l source series member := by
    rcases memReplace source with rfl | ⟨old,-⟩
    · exact c.drawn a mem series (edit.series ▸ member)
    · exact c.drawn l old series member
  loose l source alone := by
    rcases memReplace source with rfl | ⟨old,-⟩
    · rw [edit.predecessor]; exact c.loose a mem (edit.series ▸ alone)
    · exact c.loose l old alone
  linked series := by
    rw [replaceSeries c mem edit.id edit.series]
    exact replaceLinked c mem edit.id edit.predecessor series
  headLast series l source head := by
    have member := (memSeries.mp source).2
    rw [replaceSeries c mem edit.id edit.series] at source ⊢
    rcases memReplace source with rfl | ⟨old,other⟩
    · have last := c.headLast series a (memSeries.mpr ⟨mem,edit.series ▸ member⟩) (edit.head head)
      simp [replace,last,edit.id]
    · have last := c.headLast series l old head
      simp [replace,last,other]

theorem startsAlone (c : Chained issued links) {a b : Link} (mem : a ∈ links) (edit : a.Starts issued b) :
    seriesOf (replace links b) issued = [b] := by
  have distinct : ((replace links b).map Link.id).Nodup := by rw [replaceIds]; exact c.distinct
  have there : b ∈ replace links b := List.mem_map.mpr ⟨a,mem,if_pos edit.id.symm⟩
  refine onlyMember (seriesDistinct distinct issued) (memSeries.mpr ⟨there,edit.series⟩) ?_
  intro l source
  rcases memReplace (memSeries.mp source).1 with rfl | ⟨old,-⟩
  · rfl
  · exact absurd (c.drawn l old issued (memSeries.mp source).2) (Nat.lt_irrefl _)

theorem startsOthers (c : Chained issued links) {a b : Link} (mem : a ∈ links) (edit : a.Starts issued b)
    {series : Nat} (other : series ≠ issued) : seriesOf (replace links b) series = seriesOf links series := by
  have apart : ∀ l ∈ links, l.id = b.id → ¬ l.seriesId = some series := by
    intro l source at_
    rw [c.equalOfId source mem (at_.trans edit.id),edit.loose]
    simp
  have kept : (seriesOf links series).map (fun l => if l.id = b.id then b else l) = seriesOf links series := by
    refine (List.map_congr_left (fun l source => ?_)).trans (List.map_id _)
    have here := memSeries.mp source
    exact if_neg (fun at_ => apart l here.1 at_ here.2)
  rw [← kept,seriesOf,replace,List.filter_map,seriesOf]
  refine congrArg (List.map _) (List.filter_congr (fun l source => ?_))
  simp only [Function.comp]
  split
  · rename_i at_
    simpa [edit.series,Ne.symm other] using apart l source at_
  · rfl

theorem starts (c : Chained issued links) {a b : Link} (mem : a ∈ links) (edit : a.Starts issued b)
    (shaped : b.Shaped) : Chained (issued + 1) (replace links b) where
  distinct := by rw [replaceIds]; exact c.distinct
  shaped l source := by
    rcases memReplace source with rfl | ⟨old,-⟩
    · exact shaped
    · exact c.shaped l old
  ids l source := by
    rcases memReplace source with rfl | ⟨old,-⟩
    · rw [edit.id]; exact Nat.lt_succ_of_lt (c.ids a mem)
    · exact Nat.lt_succ_of_lt (c.ids l old)
  drawn l source series member := by
    rcases memReplace source with rfl | ⟨old,-⟩
    · rw [edit.series] at member
      cases member
      exact Nat.lt_succ_self _
    · exact Nat.lt_succ_of_lt (c.drawn l old series member)
  loose l source alone := by
    rcases memReplace source with rfl | ⟨old,-⟩
    · rw [edit.series] at alone
      cases alone
    · exact c.loose l old alone
  linked series := by
    by_cases same : series = issued
    · rw [same,startsAlone c mem edit]
      exact ⟨by rw [edit.predecessor]; exact c.loose a mem edit.loose,trivial⟩
    · rw [startsOthers c mem edit same]
      exact c.linked series
  headLast series l source head := by
    by_cases same : series = issued
    · rw [same,startsAlone c mem edit] at source ⊢
      rw [List.mem_singleton.mp source]
      rfl
    · rw [startsOthers c mem edit same] at source ⊢
      exact c.headLast series l source head

theorem append (c : Chained issued links) {b : Link} (id : b.id = issued) (shaped : b.Shaped)
    (drawn : ∀ series, b.seriesId = some series → series < issued + 1)
    (loose : b.seriesId = none → b.predecessorId = none)
    (next : ∀ series, b.seriesId = some series →
      b.predecessorId = (seriesOf links series).getLast?.map Link.id ∧
      ∀ l ∈ seriesOf links series, l.isSeriesHead = false) :
    Chained (issued + 1) (links ++ [b]) where
  distinct := by
    rw [List.map_append,List.nodup_append]
    refine ⟨c.distinct,List.nodup_singleton _,?_⟩
    rintro x left y right rfl
    obtain ⟨l,mem,rfl⟩ := List.mem_map.mp left
    rw [List.map_singleton,List.mem_singleton] at right
    exact absurd (c.ids l mem) (by rw [right,id]; exact Nat.lt_irrefl _)
  shaped l source := by
    rcases List.mem_append.mp source with old | new
    · exact c.shaped l old
    · rw [List.mem_singleton.mp new]; exact shaped
  ids l source := by
    rcases List.mem_append.mp source with old | new
    · exact Nat.lt_succ_of_lt (c.ids l old)
    · rw [List.mem_singleton.mp new,id]; exact Nat.lt_succ_self _
  drawn l source series member := by
    rcases List.mem_append.mp source with old | new
    · exact Nat.lt_succ_of_lt (c.drawn l old series member)
    · rw [List.mem_singleton.mp new] at member; exact drawn series member
  loose l source alone := by
    rcases List.mem_append.mp source with old | new
    · exact c.loose l old alone
    · rw [List.mem_singleton.mp new] at alone ⊢; exact loose alone
  linked series := by
    rw [seriesAppend]
    split
    · rename_i member
      exact Chain.linkedAppend (c.linked series) (by simpa using (next series member).1)
    · simpa using c.linked series
  headLast series l source head := by
    rw [seriesAppend] at source ⊢
    split at source
    · rename_i member
      rcases List.mem_append.mp source with old | new
      · rw [(next series member).2 l old] at head
        cases head
      · rw [if_pos member,List.getLast?_concat,List.mem_singleton.mp new]
    · rename_i other
      rw [if_neg other,List.append_nil]
      exact c.headLast series l (by simpa using source) head

theorem first (c : Chained issued links) {b : Link} (id : b.id = issued) (shaped : b.Shaped)
    (predecessor : b.predecessorId = none) (series : ∀ series, b.seriesId = some series → series = issued) :
    Chained (issued + 1) (links ++ [b]) := by
  refine c.append id shaped (fun σ member => by rw [series σ member]; exact Nat.lt_succ_self _)
    (fun _ => predecessor) (fun σ member => ?_)
  rw [series σ member,c.undrawn]
  exact ⟨predecessor,by simp⟩

theorem successor (c : Chained issued links) {a b : Link} (mem : a ∈ links) (head : a.isSeriesHead)
    (id : b.id = issued) (shaped : b.Shaped) (predecessor : b.predecessorId = some a.id)
    (series : b.seriesId = a.seriesId) :
    Chained (issued + 1) (replace links a.relinquished ++ [b]) := by
  have given : a.Keeps a.relinquished := ⟨rfl,rfl,rfl,by simp [Link.relinquished]⟩
  have shape := c.shaped a mem
  have handed := c.keeps mem given ⟨⟨shape.anchor,shape.series,by simp [Link.relinquished]⟩,shape.dated⟩
  obtain ⟨σ,member⟩ := Option.isSome_iff_exists.mp (shape.series (shape.head head))
  have last := c.headLast σ a (memSeries.mpr ⟨mem,member⟩) head
  have atEnd : (seriesOf (replace links a.relinquished) σ).getLast? = some a.relinquished := by
    rw [replaceSeries (b := a.relinquished) c mem rfl rfl]
    simp [replace,last,Link.relinquished]
  refine handed.append id shaped ?_ (by simp [series,member]) ?_
  · intro other same
    exact Nat.lt_succ_of_lt (c.drawn a mem other (series ▸ same))
  · intro other same
    cases member.symm.trans (series ▸ same)
    refine ⟨by rw [atEnd,predecessor]; rfl,?_⟩
    intro l source
    rcases memReplace (memSeries.mp source).1 with rfl | ⟨old,apart⟩
    · rfl
    · by_contra flagged
      have same := c.oneHead old mem (memSeries.mp source).2 member (by simpa using flagged) head
      exact apart (same ▸ rfl)

end Chained

structure Unviolated (others : List Link) (l : Link) : Prop where
  predecessor : ∀ o ∈ others, l.predecessorId ≠ none → o.predecessorId ≠ l.predecessorId
  head : l.isSeriesHead → l.seriesId ≠ none → ∀ o ∈ others, o.isSeriesHead → o.seriesId ≠ l.seriesId

theorem Chained.unviolated {issued : Nat} {links others : List Link} {l : Link} (c : Chained issued links)
    (mem : l ∈ links) (apart : ∀ o ∈ others, o ∈ links ∧ o.id ≠ l.id) : Unviolated others l where
  predecessor o source some_ same := by
    obtain ⟨p,names⟩ := Option.ne_none_iff_exists'.mp some_
    have one := c.onePredecessor (apart o source).1 mem (same.trans names) names
    exact (apart o source).2 (congrArg Link.id one)
  head flagged some_ o source flagged' same := by
    obtain ⟨series,member⟩ := Option.ne_none_iff_exists'.mp some_
    have one := c.oneHead (apart o source).1 mem (same.trans member) member flagged' flagged
    exact (apart o source).2 (congrArg Link.id one)

end FamilyPlatform.Tasks
