import Mathlib.Data.List.Chain
import FamilyPlatform.Tasks.Successors

/-! The dates that the instances of a series are created for, from one edit of the rule to
the next: where no head is closed ahead of its own date, they go up along the chain. -/
namespace FamilyPlatform.Tasks
open ZonedTime Civil Recurrence RecurrenceRule

/- By the date that it was created for, wherever its due is moved later. -/
structure Instance where
  id : TaskId
  predecessorId : Option TaskId
  date : LocalDate
  deriving DecidableEq

def Commit.adds (series : TaskSeriesId) (e : Commit) : Option Instance :=
  match e.handing with
  | some (head,_,successor) =>
    if head.seriesId = some series then
      successor.due.map (fun due => ⟨successor.id,successor.predecessorId,due.localDate⟩)
    else none
  | none => none

structure Scheduled (rule : RecurrenceRule) (anchor : LocalDateTime) (instances : List Instance) : Prop where
  increasing : instances.Pairwise (fun a b => a.date.number < b.date.number)
  linked : instances.IsChain (fun a b => b.predecessorId = some a.id)
  counted : ∀ n, rule.count = some (.finite n) → (∃ k, some anchor.toDate ∈ candidatesForPeriod rule anchor.toDate k) →
    instances.length ≤ n

structure FirstOf (s : Store) (h : Task) (series : TaskSeriesId) (rule : RecurrenceRule) (anchor : LocalDateTime) :
    Prop where
  found : HeadOf s h series rule anchor
  due : h.due.map dueLocalDateTime = some anchor

/- If the rule has the date, its occurrence in the zone of the head's due is not ahead any more, at
the later of the due moment and the closing moment. -/
def DatePassed (intl : Intl) (rule : RecurrenceRule) (anchor : LocalDateTime) (date : LocalDate) (head : Task)
    (now : Instant) : Prop :=
  (∃ k, some date ∈ candidatesForPeriod rule anchor.toDate k) → ∃ due zone dueAt i, head.due = some due ∧
    intl due.timeZone = some zone ∧ head.dueAt intl = some (some dueAt) ∧
    localToInstant zone (atTime date anchor.hour anchor.minute anchor.second) = some i ∧ i ≤ max dueAt now

def DatesPassed (intl : Intl) (rule : RecurrenceRule) (anchor : LocalDateTime) (series : TaskSeriesId) :
    LocalDate → List Commit → Prop
  | _, [] => True
  | date, e :: rest => (∀ head now successor, e.handing = some (head,now,successor) → head.seriesId = some series →
      DatePassed intl rule anchor date head now) ∧
    DatesPassed intl rule anchor series (((e.adds series).map Instance.date).getD date) rest

def Dates (rule : RecurrenceRule) (anchor : LocalDateTime) (date : LocalDate) : Prop :=
  date = anchor.toDate ∨ ∃ k, some date ∈ candidatesForPeriod rule anchor.toDate k

section
variable {intl : Intl} {s : Store} {head successor closed : Task} {now : Instant} {rule : RecurrenceRule}
  {anchor : LocalDateTime} {series : TaskSeriesId} {e : Commit}

theorem handedTo (going : Going intl e.before series rule anchor) (computed : Computed intl e)
    (handing : e.handing = some (head,now,successor)) (member : head.seriesId = some series) :
    ∃ due zone dueAt x next window, head.due = some due ∧ intl due.timeZone = some zone ∧
      head.dueAt intl = some (some dueAt) ∧ max dueAt now < x.instant ∧
      Listed ⟨rule,anchor,zone,window,maxOccurrences⟩ x ∧ successor.due = some next ∧
      next.localDate = x.reading.toDate := by
  obtain ⟨closed,due,_,_,locked,⟨state,rfl⟩,found,rfl,-⟩ := handingSource computed handing
  obtain ⟨isRule,isAnchor⟩ := going.headed.bears locked ⟨rfl,id,rfl,rfl⟩ member (successorDueSource found)
  obtain ⟨_,_,due₀,zone,before,x,ruled,anchored,dated,named,moment,occurs,rfl⟩ := nextDueSource found
  obtain rfl := Option.some.inj (isRule.symm.trans ruled)
  obtain rfl := Option.some.inj (isAnchor.symm.trans anchored)
  obtain ⟨later,window,listed⟩ := nextListed occurs
  exact ⟨due₀,zone,before,x,_,window,dated,named,moment,later,listed,rfl,by cases due₀ <;> rfl⟩

theorem passedLater (based : Based anchor) {date : LocalDate} (dates : Dates rule anchor date)
    (passed : DatePassed intl rule anchor date head now) {due : Due} {zone : Zone} {dueAt : Instant} {window : Window}
    {x : ExpandedOccurrence} (isDue : head.due = some due) (named : intl due.timeZone = some zone)
    (moment : head.dueAt intl = some (some dueAt)) (later : max dueAt now < x.instant)
    (listed : Listed ⟨rule,anchor,zone,window,maxOccurrences⟩ x) : date.number < x.reading.toDate.number := by
  obtain ⟨k,mem⟩ := listed.occurs
  have of := memOccurrencesIn based.day based.clock mem
  have candidate := occursCandidate based.day based.clock mem
  by_cases has : ∃ k, some date ∈ candidatesForPeriod rule anchor.toDate k
  · obtain ⟨due',zone',dueAt',i,isDue',named',moment',resolved,le⟩ := passed has
    obtain rfl := Option.some.inj (isDue.symm.trans isDue')
    obtain rfl := Option.some.inj (named.symm.trans named')
    obtain rfl := Option.some.inj (Option.some.inj (moment.symm.trans moment'))
    obtain ⟨k',source⟩ := has
    have inPeriod := memCandidatesPeriod based.day source
    have clock : LocalDateTime.Clock (atTime date anchor.hour anchor.minute anchor.second) := based.clock
    by_contra notLater
    rcases Int.lt_or_eq_of_le (Int.not_lt.mp notLater) with less | same
    · have := instantsIncrease of.inPeriod.real (b := atTime date anchor.hour anchor.minute anchor.second) inPeriod.real
        of.clocked clock of.inPeriod.low less of.clock of.resolved resolved
      exact absurd (lt_of_le_of_lt le later) (not_lt_of_gt this)
    · have day := numberInjective of.inPeriod.real inPeriod.real same
      have second : secondOf x.reading = secondOf (atTime date anchor.hour anchor.minute anchor.second) := by
        have clocks := of.clock
        simp only [secondOf,day,atTime,clockMs] at clocks ⊢
        omega
      have reading := secondInjective of.inPeriod.real of.clocked
        (b := atTime date anchor.hour anchor.minute anchor.second) inPeriod.real clock second
      have resolved' := of.resolved
      rw [reading,resolved] at resolved'
      rw [Option.some.inj resolved'] at le
      exact absurd (lt_of_le_of_lt le later) (lt_irrefl _)
  · obtain rfl := dates.resolve_right has
    refine lt_of_le_of_ne of.since (fun same => has ⟨k,?_⟩)
    rw [show some anchor.toDate = some x.reading.toDate from
      congrArg some (numberInjective based.day.real of.inPeriod.real same)]
    exact candidate

theorem datesCounted (based : Based anchor) {zone : Zone} {window : Window} {x : ExpandedOccurrence}
    (listed : Listed ⟨rule,anchor,zone,window,maxOccurrences⟩ x) {n : Nat} (count : rule.count = some (.finite n))
    {dates : List LocalDate} (increasing : dates.Pairwise (fun a b => a.number < b.number))
    (each : ∀ d ∈ dates, (∃ k, some d ∈ candidatesForPeriod rule anchor.toDate k) ∧ anchor.toDate.number ≤ d.number ∧
      (d = x.reading.toDate ∨ d.number < x.reading.toDate.number)) : dates.length ≤ n := by
  obtain ⟨passed,length,mem,before⟩ := listed.counted based.day based.clock count
  obtain ⟨k,there⟩ := listed.occurs
  have of := memOccurrencesIn based.day based.clock there
  have sub : dates ⊆ passed.map (fun y => y.reading.toDate) := by
    intro d source
    obtain ⟨⟨k',candidate⟩,since,same | less⟩ := each d source
    · exact same ▸ List.mem_map_of_mem mem
    · have inPeriod := memCandidatesPeriod based.day candidate
      have clock : LocalDateTime.Clock (atTime d anchor.hour anchor.minute anchor.second) := based.clock
      obtain ⟨i,resolved⟩ := @localToInstantEarlier zone (atTime d anchor.hour anchor.minute anchor.second) x.reading _
        inPeriod.real of.inPeriod.real clock of.clocked inPeriod.low less of.clock.symm of.resolved
      have occurs := @candidateOccurs ⟨rule,anchor,zone,window,maxOccurrences⟩ based.day based.clock k' d candidate since i
        resolved
      exact List.mem_map.mpr ⟨_,before k' _ occurs less,rfl⟩
  have distinct : dates.Nodup := increasing.imp (fun {a b} less (same : a = b) => absurd less (same ▸ lt_irrefl _))
  calc dates.length ≤ (passed.map (fun y => y.reading.toDate)).length := (List.subperm_of_subset distinct sub).length_le
    _ = passed.length := List.length_map _
    _ ≤ n := length

structure Created (intl : Intl) (s : Store) (series : TaskSeriesId) (rule : RecurrenceRule) (anchor : LocalDateTime)
    (before : List Instance) (last : Instance) : Prop where
  going : Going intl s series rule anchor
  head : ∀ id row, s.tasks.find id = some row → row.seriesId = some series → row.isSeriesHead = true → id = last.id
  dates : ∀ i ∈ before ++ [last], Dates rule anchor i.date ∧ anchor.toDate.number ≤ i.date.number
  scheduled : Scheduled rule anchor (before ++ [last])

theorem addsSource (computed : Computed intl e) (handing : e.handing = some (head,now,successor))
    (member : head.seriesId = some series) : ∃ next, successor.due = some next ∧
      e.adds series = some ⟨successor.id,successor.predecessorId,next.localDate⟩ := by
  obtain ⟨closed,due,_,_,-,-,-,rfl,-⟩ := handingSource computed handing
  exact ⟨due,rfl,by simp only [Commit.adds,handing,if_pos member,Task.successorOf,Option.map_some]⟩

theorem headBefore (going : Going intl e.before series rule anchor) (computed : Computed intl e) {id : TaskId}
    {row : TaskRow} (there : e.after.tasks.find id = some row) (member : row.seriesId = some series)
    (head : row.isSeriesHead = true) :
    (∃ old, e.before.tasks.find id = some old ∧ old.seriesId = some series ∧ old.isSeriesHead = true) ∨
      ∃ head now successor, e.handing = some (head,now,successor) ∧ head.seriesId = some series ∧ successor.id = id := by
  have after : e.after = (writeLocked intl e.before e.request (readLocked e.before e.request)).2 := by
    rw [← computed.1,computed.2]
  have outcome : (writeLocked intl e.before e.request (readLocked e.before e.request)).1 = e.outcome := by
    rw [← computed.1,computed.2]
  rw [after] at there
  rcases workRows id row there with old | ⟨t,wrote,own,made⟩
  · exact .inl ⟨row,old,member,head⟩
  obtain ⟨sameSeries,sameHead⟩ := columnsLink made
  rw [sameSeries] at member
  rw [sameHead] at head
  have seen : ∀ {u : Task}, readLocked e.before e.request = .ok (some u) → u.id = id → u.seriesId = some series →
      u.isSeriesHead = true →
      ∃ old, e.before.tasks.find id = some old ∧ old.seriesId = some series ∧ old.isSeriesHead = true := by
    intro u view is member head
    obtain ⟨old,found,link,-⟩ := viewRow view
    exact ⟨old,is ▸ found,(congrArg Link.seriesId link).trans member,(congrArg Link.isSeriesHead link).trans head⟩
  generalize request : e.request = w at wrote seen outcome
  cases wrote with
  | created command ok =>
    obtain ⟨-,-,-,fresh⟩ := createLink ok
    exact absurd (fresh series member) (ne_of_lt going.drawn)
  | @moved r u _ view move =>
    obtain ⟨member',head'⟩ := movedSeries going.standing.chained going.drawn view move member head
    exact .inl (seen view ((movedKeeps move).1.symm.trans own) member' head')
  | relinquished => cases head
  | @succeeded r u _ due view closed found handed =>
    obtain ⟨state,rfl⟩ := closed
    refine .inr ⟨u,r.now,_,?_,member,own⟩
    simp only [Commit.handing,request,view,outcome.symm.trans handed]
  | reported view => exact .inl (seen view own member head)

theorem lastLatest {before : List Instance} {last : Instance}
    (increasing : (before ++ [last]).Pairwise (fun a b => a.date.number < b.date.number)) :
    ∀ i ∈ before ++ [last], i.date.number ≤ last.date.number := by
  intro i mem
  rcases List.mem_append.mp mem with old | own
  · have sooner := (List.pairwise_append.mp increasing).2.2 i old last (List.mem_singleton_self last)
    exact le_of_lt sooner
  · rw [List.mem_singleton.mp own]

theorem increasingNext {before : List Instance} {last i : Instance}
    (increasing : (before ++ [last]).Pairwise (fun a b => a.date.number < b.date.number))
    (later : last.date.number < i.date.number) :
    (before ++ [last] ++ [i]).Pairwise (fun a b => a.date.number < b.date.number) := by
  refine List.pairwise_append.mpr ⟨increasing,List.pairwise_singleton _ _,?_⟩
  intro a mem b new
  obtain rfl := List.mem_singleton.mp new
  exact lt_of_le_of_lt (lastLatest increasing a mem) later

theorem Scheduled.next {before : List Instance} {last i : Instance} (scheduled : Scheduled rule anchor (before ++ [last]))
    (later : last.date.number < i.date.number) (linked : i.predecessorId = some last.id)
    (counted : ∀ n, rule.count = some (.finite n) →
      (∃ k, some anchor.toDate ∈ candidatesForPeriod rule anchor.toDate k) → (before ++ [last] ++ [i]).length ≤ n) :
    Scheduled rule anchor (before ++ [last] ++ [i]) := by
  refine ⟨increasingNext scheduled.increasing later,
    List.isChain_append.mpr ⟨scheduled.linked,List.isChain_singleton _,?_⟩,counted⟩
  intro a is b new
  rw [List.getLast?_concat] at is
  cases is
  cases new
  exact linked

theorem handedHead (going : Going intl e.after series rule anchor) (computed : Computed intl e)
    (handing : e.handing = some (head,now,successor)) (member : head.seriesId = some series) {key : TaskId} {row : TaskRow}
    (there : e.after.tasks.find key = some row) (own : row.seriesId = some series) (flagged : row.isSeriesHead = true) :
    key = successor.id := by
  obtain ⟨closed,due,_,_,-,⟨state,rfl⟩,-,rfl,-,placed⟩ := handingSource computed handing
  obtain ⟨written,-,-,is⟩ := id placed
  obtain ⟨sameSeries,sameHead⟩ := columnsLink (placedColumns placed is)
  have linked : ∀ {id row}, e.after.tasks.find id = some row → row.link ∈ e.after.links :=
    fun found => List.mem_map_of_mem (Table.findSource found).1
  have same := going.standing.chained.oneHead (linked there) (linked is) own (sameSeries.trans member) flagged sameHead
  calc key = row.id := (Table.findSource there).2.symm
    _ = _ := congrArg Link.id same
    _ = _ := (Table.findSource is).2

theorem chainCounted (based : Based anchor) {zone : Zone} {window : Window} {x : ExpandedOccurrence}
    (listed : Listed ⟨rule,anchor,zone,window,maxOccurrences⟩ x) {before : List Instance} {last i : Instance}
    (dates : ∀ i ∈ before ++ [last], Dates rule anchor i.date ∧ anchor.toDate.number ≤ i.date.number)
    (increasing : (before ++ [last]).Pairwise (fun a b => a.date.number < b.date.number))
    (later : last.date.number < i.date.number) (date : i.date = x.reading.toDate) {n : Nat}
    (count : rule.count = some (.finite n))
    (produced : ∃ k, some anchor.toDate ∈ candidatesForPeriod rule anchor.toDate k) :
    (before ++ [last] ++ [i]).length ≤ n := by
  obtain ⟨k,occurs⟩ := listed.occurs
  have of := memOccurrencesIn based.day based.clock occurs
  have all : ((before ++ [last] ++ [i]).map Instance.date).Pairwise (fun a b => a.number < b.number) :=
    List.pairwise_map.mpr (increasingNext increasing later)
  have counted := datesCounted based listed count all (fun d mem => ?_)
  · rwa [List.length_map] at counted
  obtain ⟨j,there,rfl⟩ := List.mem_map.mp mem
  rcases List.mem_append.mp there with old | new
  · obtain ⟨dated,since⟩ := dates j old
    refine ⟨dated.elim (fun first => first ▸ produced) id,since,.inr ?_⟩
    have sooner := lastLatest increasing j old
    rw [← date]
    exact lt_of_le_of_lt sooner later
  · rw [List.mem_singleton.mp new,date]
    exact ⟨⟨k,occursCandidate based.day based.clock occurs⟩,of.since,.inl rfl⟩

theorem predecessorLast {before : List Instance} {last : Instance}
    (created : Created intl e.before series rule anchor before last) (computed : Computed intl e)
    (handing : e.handing = some (head,now,successor)) (member : head.seriesId = some series) :
    successor.predecessorId = some last.id := by
  obtain ⟨closed,_,_,_,locked,⟨state,rfl⟩,found,rfl,-⟩ := handingSource computed handing
  obtain ⟨row,there,link,-⟩ := viewRow locked
  have flagged : head.isSeriesHead = true := successorDueSource found
  rw [← created.head head.id row there ((congrArg Link.seriesId link).trans member)
    ((congrArg Link.isSeriesHead link).trans flagged)]
  rfl

theorem createdHanded {before : List Instance} {last : Instance}
    (created : Created intl e.before series rule anchor before last) (computed : Computed intl e)
    (after : Going intl e.after series rule anchor) (handing : e.handing = some (head,now,successor))
    (member : head.seriesId = some series) (passed : DatePassed intl rule anchor last.date head now) :
    ∃ i, e.adds series = some i ∧ Created intl e.after series rule anchor (before ++ [last]) i := by
  obtain ⟨next,isNext,adds⟩ := addsSource computed handing member
  obtain ⟨due,zone,dueAt,x,next',window,isDue,named,moment,later,listed,isNext',date⟩ :=
    handedTo created.going computed handing member
  obtain rfl := Option.some.inj (isNext.symm.trans isNext')
  obtain ⟨lastDates,-⟩ := created.dates last (List.mem_append_right _ (List.mem_singleton_self last))
  have based := created.going.based
  have further := passedLater based lastDates passed isDue named moment later listed
  rw [← date] at further
  have counted := fun n (count : rule.count = some (.finite n)) produced =>
    chainCounted (i := ⟨successor.id,successor.predecessorId,next.localDate⟩) based listed created.dates
      created.scheduled.increasing further date count produced
  refine ⟨_,adds,after,fun id row => handedHead after computed handing member,fun i mem => ?_,
    created.scheduled.next further (predecessorLast created computed handing member) counted⟩
  rcases List.mem_append.mp mem with old | new
  · exact created.dates i old
  · rw [List.mem_singleton.mp new]
    obtain ⟨k,occurs⟩ := listed.occurs
    have of := memOccurrencesIn based.day based.clock occurs
    simp only [date]
    exact ⟨.inr ⟨k,occursCandidate based.day based.clock occurs⟩,of.since⟩

theorem createdNext {before : List Instance} {last : Instance}
    (created : Created intl e.before series rule anchor before last) (computed : Computed intl e)
    (wired : e.request.Wired intl) (keeps : e.KeepsRule series)
    (passed : ∀ head now successor, e.handing = some (head,now,successor) → head.seriesId = some series →
      DatePassed intl rule anchor last.date head now) :
    (e.adds series = none ∧ Created intl e.after series rule anchor before last) ∨
      ∃ i, e.adds series = some i ∧ Created intl e.after series rule anchor (before ++ [last]) i := by
  have going : Going intl e.after series rule anchor := by
    have kept := workGoing created.going wired keeps
    rwa [← computed.1,computed.2] at kept
  by_cases handed : ∃ head now successor, e.handing = some (head,now,successor) ∧ head.seriesId = some series
  · obtain ⟨head,now,successor,handing,member⟩ := handed
    exact .inr (createdHanded created computed going handing member (passed head now successor handing member))
  · have alone : e.adds series = none := by
      unfold Commit.adds
      split
      · rename_i head now successor handing
        rw [if_neg (fun member => handed ⟨head,now,successor,handing,member⟩)]
      · rfl
    refine .inl ⟨alone,going,fun id row there own flagged => ?_,created.dates,created.scheduled⟩
    rcases headBefore created.going computed there own flagged with old | ⟨head,now,successor,other,member,-⟩
    · obtain ⟨old,was,own',flagged'⟩ := old
      exact created.head id old was own' flagged'
    · exact absurd ⟨head,now,successor,other,member⟩ handed

theorem createdFirst (standing : s.Standing intl) (shaped : StoreShaped s) (first : FirstOf s closed series rule anchor) :
    Created intl s series rule anchor [] ⟨closed.id,closed.predecessorId,anchor.toDate⟩ := by
  obtain ⟨found,due⟩ := first
  have going := headGoing standing shaped found
  obtain ⟨⟨familyId,locked⟩,head,member,ruled,-⟩ := found
  obtain ⟨row,there,link,loaded⟩ := lockRow locked
  have linked : closed.link ∈ s.links := link ▸ List.mem_map_of_mem (Table.findSource there).1
  refine ⟨going,fun id other there' member' head' => ?_,fun i mem => ?_,?_⟩
  · have same := standing.chained.oneHead (List.mem_map_of_mem (Table.findSource there').1) linked member' member head' head
    exact (Table.findSource there').2.symm.trans (congrArg Link.id same)
  · obtain rfl := List.mem_singleton.mp mem
    exact ⟨.inl rfl,le_refl _⟩
  · refine ⟨List.pairwise_singleton _ _,List.isChain_singleton _,fun n count _ => ?_⟩
    exact of_decide_eq_true (rule.parsed.count _ count)

theorem serialScheduled {last : Store} {log : List Commit} (serial : RowLock.Serial (works intl) s log last)
    (wired : ∀ e ∈ log, e.request.Wired intl) (keeps : ∀ e ∈ log, e.KeepsRule series) {before : List Instance}
    {latest : Instance} (created : Created intl s series rule anchor before latest)
    (passed : DatesPassed intl rule anchor series latest.date log) :
    Scheduled rule anchor (before ++ [latest] ++ log.filterMap (Commit.adds series)) := by
  induction serial generalizing before latest with
  | nil => simpa only [List.filterMap_nil,List.append_nil] using created.scheduled
  | @cons e rest last view made later ih =>
    have computed : Computed intl e := ⟨view,made⟩
    have wired' := fun d mem => wired d (List.mem_cons_of_mem e mem)
    have keeps' := fun d mem => keeps d (List.mem_cons_of_mem e mem)
    obtain ⟨here,there⟩ := passed
    rcases createdNext created computed (wired e List.mem_cons_self) (keeps e List.mem_cons_self) here with
      ⟨none_,next⟩ | ⟨i,some_,next⟩
    · rw [none_] at there
      rw [List.filterMap_cons_none none_]
      exact ih wired' keeps' next there
    · rw [some_] at there
      rw [List.filterMap_cons_some some_,List.append_cons]
      exact ih wired' keeps' next there

end

/- In every run, from the head that the rule starts with and while nobody edits the rule: the first
instance, and what the later commits add to the series. -/
def AlongSeries (intl : Intl) (given : RecurrenceRule → LocalDateTime → TaskSeriesId → List Commit → Prop) : Prop :=
  ∀ moves, (∀ w, .begin w ∈ moves → w.Wired intl) → ∀ last : RowLock.Config Store Work View WorkOutcome,
    RowLock.run (works intl) (RowLock.begins Store.empty) moves = some last →
      ∀ (earlier later : List Commit) (d : Commit), last.log = earlier ++ d :: later →
        ∀ series rule anchor h, FirstOf d.before h series rule anchor → (∀ e ∈ d :: later, e.KeepsRule series) →
          given rule anchor series (d :: later) → Scheduled rule anchor
            (⟨h.id,h.predecessorId,anchor.toDate⟩ :: (d :: later).filterMap (Commit.adds series))

/-- The dates go up, one predecessor after the other, and COUNT bounds them, where each head is closed
at or after the occurrence of the date that it was created for. -/
theorem runScheduled (intl : Intl) : AlongSeries intl (fun rule anchor series log =>
    DatesPassed intl rule anchor series anchor.toDate log) := by
  intro moves wired last ran earlier later d split_ series rule anchor h first keeps passed
  obtain ⟨standing,shaped,serial,requests⟩ := runBefore wired ran split_
  exact serialScheduled serial requests keeps (createdFirst standing shaped first) passed

theorem dailyScheduled : ∃ (e : Commit) (rule : RecurrenceRule) (head : Task),
    e.adds 0 = some ⟨1,some 0,⟨2026,10,1⟩⟩ ∧ Scheduled rule ⟨⟨2026,9,30⟩,18,30,0⟩
      [⟨head.id,head.predecessorId,⟨2026,9,30⟩⟩,⟨1,some 0,⟨2026,10,1⟩⟩] := by
  have run : (RowLock.run (works everywhereUtc) (RowLock.begins Store.empty) dailyMoves).map
      (fun c => (c.log.drop 1).map (fun e : Commit => (e.request,e.seen,e.adds 0))) =
      some [(dailyWork,some ⟨true,some 0,true,some ⟨⟨2026,9,30⟩,18,30,0⟩,
        some (.dateTime ⟨2026,9,30⟩ ⟨18,30⟩ "Europe/London"),1790794800000,
        some (.dateTime ⟨2026,10,1⟩ ⟨18,30⟩ "Europe/London")⟩,some ⟨1,some 0,⟨2026,10,1⟩⟩)] := by decide +kernel
  obtain ⟨last,ran,log⟩ := Option.map_eq_some_iff.mp run
  obtain ⟨e,none_,whole,is,none'⟩ := List.map_eq_cons_iff.mp log
  obtain rfl := List.map_eq_nil_iff.mp none'
  obtain ⟨request,others⟩ := Prod.mk.inj is
  obtain ⟨seen,adds⟩ := Prod.mk.inj others
  obtain ⟨rule,head,successor,handing,found,due,next⟩ := seenHanding seen
  have split_ : last.log = last.log.take 1 ++ e :: [] := by rw [← whole,List.take_append_drop]
  have scheduled := runScheduled everywhereUtc dailyMoves dailyWired last ran _ [] e split_ 0 rule _ head ⟨found,?_⟩
    (fun d mem => ?_) ⟨fun head' now successor' same _ => ?_,trivial⟩
  · rw [List.filterMap_cons_some adds] at scheduled
    exact ⟨e,rule,head,adds,scheduled⟩
  · rw [due]
    rfl
  · rw [List.mem_singleton.mp mem]
    exact keepsRule request (by rintro id version patch ⟨⟩)
  · rw [handing] at same
    cases same
    refine fun _ => ⟨_,Zone.utc,1790793000000,1790793000000,due,rfl,?_,by decide +kernel,by decide⟩
    have moment : dueMomentOf everywhereUtc (.dateTime ⟨2026,9,30⟩ ⟨18,30⟩ "Europe/London") = some 1790793000000 := by
      decide +kernel
    simp only [Task.dueAt,due,moment,Option.map_some]

def twiceWorks : List Work :=
  [.member ⟨.completeTask 0 1,0,1,[],[1],1780339200000,1780339200000⟩,
   choreOf (.updateTask 1 1 ⟨none,none,none,none,some (some (.dateTime ⟨2026,6,1⟩ ⟨23,0⟩ "Europe/London")),none⟩) 1 [],
   .member ⟨.completeTask 1 2,0,1,[],[1],1780355400000,1780355400000⟩]

def twiceMoves : List (RowLock.Move Work) :=
  [.begin (choreOf (.createTask (choreDue ⟨2026,6,1⟩ (some "FREQ=DAILY;COUNT=2"))) 1 []),.lock 0] ++
    twiceWorks.zipIdx.flatMap (fun (w,k) => [.begin w,.lock (k + 1),.commit (k + 1)])

/- The third instance is created for the date of the second. -/
theorem twiceScheduled : ¬ ∀ intl, AlongSeries intl (fun _ _ _ _ => True) := by
  intro all
  have run : (RowLock.run (works everywhereUtc) (RowLock.begins Store.empty) twiceMoves).map
      (fun c => ((c.log.drop 1).head?.map Commit.seen,(c.log.drop 1).map (fun e : Commit => e.request),
        (c.log.drop 1).filterMap (Commit.adds 0))) =
      some (some (some ⟨true,some 0,true,some ⟨⟨2026,6,1⟩,18,30,0⟩,
        some (.dateTime ⟨2026,6,1⟩ ⟨18,30⟩ "Europe/London"),1780339200000,
        some (.dateTime ⟨2026,6,2⟩ ⟨18,30⟩ "Europe/London")⟩),twiceWorks,
        [⟨1,some 0,⟨2026,6,2⟩⟩,⟨3,some 1,⟨2026,6,2⟩⟩]) := by decide +kernel
  obtain ⟨last,ran,log⟩ := Option.map_eq_some_iff.mp run
  obtain ⟨first,others⟩ := Prod.mk.inj log
  obtain ⟨requests,adds⟩ := Prod.mk.inj others
  obtain ⟨e,leads,seen⟩ := Option.map_eq_some_iff.mp first
  obtain ⟨later,whole⟩ := List.head?_eq_some_iff.mp leads
  obtain ⟨rule,head,successor,handing,found,due,next⟩ := seenHanding seen
  have split_ : last.log = last.log.take 1 ++ e :: later := by rw [← whole,List.take_append_drop]
  rw [whole] at requests adds
  have scheduled := all everywhereUtc twiceMoves (fun w mem => ?_) last ran _ later e split_ 0 rule _ head
    ⟨found,by rw [due]; rfl⟩ (fun d mem => ?_) trivial
  · rw [adds] at scheduled
    have increasing := scheduled.increasing
    simp at increasing
  · simp only [twiceMoves,twiceWorks,List.zipIdx_cons,List.zipIdx_nil,List.flatMap_cons,List.flatMap_nil,List.cons_append,
      List.nil_append,List.mem_cons,RowLock.Move.begin.injEq,reduceCtorEq,List.not_mem_nil,false_or,or_false] at mem
    rcases mem with rfl | rfl | rfl | rfl
    · rintro due ⟨⟩
      exact ⟨.dateTime "2026-06-01" "18:30" "Europe/London",by decide +kernel⟩
    · trivial
    · rintro due ⟨⟩
      exact ⟨.dateTime "2026-06-01" "23:00" "Europe/London",by decide +kernel⟩
    · trivial
  · have request : d.request ∈ twiceWorks := requests ▸ List.mem_map_of_mem mem
    simp only [twiceWorks,choreOf,List.mem_cons,List.not_mem_nil,or_false] at request
    rcases request with is | is | is
    · exact keepsRule is (by rintro id version patch ⟨⟩)
    · exact keepsRule is (by rintro id version patch ⟨⟩; rfl)
    · exact keepsRule is (by rintro id version patch ⟨⟩)

end FamilyPlatform.Tasks
