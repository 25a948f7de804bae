import FamilyPlatform.Kernel.Complete
import FamilyPlatform.Tasks.Heads

/-! What a series is handed on to, along any chain of closes: an occurrence of its rule,
later than the due moment and the closing moment, and not after UNTIL. -/
namespace FamilyPlatform.Tasks
open ZonedTime Civil Recurrence RecurrenceRule

structure Upcoming (intl : Intl) (rule : RecurrenceRule) (anchor : LocalDateTime) (head : Task) (now : Instant)
    (successor : Task) : Prop where
  later : ∃ dueAt moment, head.dueAt intl = some (some dueAt) ∧ successor.dueAt intl = some (some moment) ∧
    dueAt < moment ∧ now < moment
  occurs : ∃ due next zone x, head.due = some due ∧ successor.due = some next ∧ next.timeZone = due.timeZone ∧
    intl due.timeZone = some zone ∧ Produces rule anchor zone x ∧ next.localDate = x.reading.toDate ∧ UpToUntil rule x

/- Of a head that is due on a date alone: no date that is over, at the later of its due moment
and the closing moment, has its occurrence still ahead. -/
def Unspilled (intl : Intl) (rule : RecurrenceRule) (anchor : LocalDateTime) (head : Task) (now : Instant) : Prop :=
  ∀ date timeZone zone dueAt, head.due = some (.date date timeZone) → intl timeZone = some zone →
    head.dueAt intl = some (some dueAt) → ∀ x, Produces rule anchor zone x → max dueAt now < x.instant →
      ∀ stop, dueMomentOf intl (.date x.reading.toDate timeZone) = some stop → max dueAt now < stop

section
variable {intl : Intl} {head successor closed : Task} {now : Instant} {rule : RecurrenceRule} {anchor : LocalDateTime}
  {series : TaskSeriesId} {e : Commit}

theorem readingAt {input : ExpandInput} {k : Nat} {x : ExpandedOccurrence} (based : Based input.dtstart)
    (of : OccursIn input k x) : x.reading = atTime x.reading.toDate x.reading.hour x.reading.minute 0 := by
  have second : x.reading.second = 0 := by
    have same := of.clock
    have whole := based.whole
    have start := based.clock
    have read := of.clocked
    unfold LocalDateTime.Clock at start read
    unfold clockMs at same
    omega
  rw [← second]
  rfl

theorem successorUpcoming (ruled : Exact rule) (based : Based anchor) (isRule : closed.recurrenceRule = some rule)
    (isAnchor : closed.recurrenceAnchor = some anchor) {due : Due}
    (found : successorDueOf intl closed now = some (.ok (some due))) (isDue : successor.due = some due)
    {dueAt : Option Instant} (stored : successor.dueAt intl = some dueAt)
    (unspilled : Unspilled intl rule anchor closed now) : Upcoming intl rule anchor closed now successor := by
  obtain ⟨_,_,due₀,zone,before,x,ruled',anchored',dated,named,moment,occurs,rfl⟩ := nextDueSource found
  obtain rfl := Option.some.inj (isRule.symm.trans ruled')
  obtain rfl := Option.some.inj (isAnchor.symm.trans anchored')
  obtain ⟨later,window,listed⟩ := nextListed occurs
  obtain ⟨k,mem⟩ := listed.occurs
  have of := memOccurrencesIn based.day based.clock mem
  have produced : Produces rule anchor zone x := ⟨window,listed.plain based.day based.clock⟩
  have zoneSame : (dueAtReading due₀ x.reading).timeZone = due₀.timeZone := by cases due₀ <;> rfl
  have dateSame : (dueAtReading due₀ x.reading).localDate = x.reading.toDate := by cases due₀ <;> rfl
  refine ⟨?_,due₀,_,zone,x,dated,isDue,zoneSame,named,produced,dateSame,
    notBeyondUpTo based.day ruled of listed.notBeyond⟩
  simp only [Task.dueAt,isDue] at stored
  obtain ⟨stop,ends,rfl⟩ := Option.map_eq_some_iff.mp stored
  have ahead : max before now < stop := by
    cases due₀ with
    | date date timeZone => exact unspilled date timeZone zone before dated named moment x produced later stop ends
    | dateTime date time timeZone =>
      simp only [dueAtReading,dueMomentOf,Due.timeZone] at named ends
      rw [named,Option.bind_eq_bind,Option.bind_some,← readingAt based of,of.resolved] at ends
      exact Option.some.inj ends ▸ later
  refine ⟨before,stop,moment,?_,lt_of_le_of_lt (le_max_left _ _) ahead,lt_of_le_of_lt (le_max_right _ _) ahead⟩
  simp only [Task.dueAt,isDue,ends,Option.map_some]

theorem handingUpcoming (going : Going intl e.before series rule anchor) (computed : Computed intl e)
    (handing : e.handing = some (head,now,successor)) (member : head.seriesId = some series)
    (unspilled : Unspilled intl rule anchor head now) : Upcoming intl rule anchor head now successor := by
  obtain ⟨closed,due,_,_,locked,⟨state,rfl⟩,found,rfl,-,placed⟩ := handingSource computed handing
  obtain ⟨isRule,isAnchor⟩ := going.headed.bears locked ⟨rfl,id,rfl,rfl⟩ member (successorDueSource found)
  obtain ⟨_,-,made,-⟩ := placed
  obtain ⟨_,_,_,_,-,-,stored,-⟩ := columnsSource made
  obtain ⟨later,occurs⟩ := successorUpcoming going.ruled going.based isRule isAnchor found rfl stored unspilled
  exact ⟨later,occurs⟩

end

def AlongChains (intl : Intl)
    (good : RecurrenceRule → LocalDateTime → (head : Task) → (now : Instant) → (successor : Task) → Prop) : Prop :=
  ∀ moves, (∀ w, .begin w ∈ moves → w.Wired intl) → ∀ last : RowLock.Config Store Work View WorkOutcome,
    RowLock.run (works intl) (RowLock.begins Store.empty) moves = some last →
      ∀ (earlier later : List Commit) (d : Commit), last.log = earlier ++ d :: later →
        ∀ series rule anchor h, HeadOf d.before h series rule anchor → (∀ e ∈ d :: later, e.KeepsRule series) →
          ∀ e ∈ d :: later, ∀ head now successor, e.handing = some (head,now,successor) →
            head.seriesId = some series → good rule anchor head now successor

/-- Only where a date is over whose occurrence is still ahead may a successor be overdue from the first. -/
theorem runUpcoming (intl : Intl) : AlongChains intl (fun rule anchor head now successor =>
    Unspilled intl rule anchor head now → Upcoming intl rule anchor head now successor) := by
  intro moves wired last ran earlier later d split_ series rule anchor h found keeps
  obtain ⟨standing,shaped,serial,requests⟩ := runBefore wired ran split_
  have going := serialGoing serial requests keeps (headGoing standing shaped found)
  have computed := (serialVersions serial).1
  intro e mem head now successor handing member unspilled
  exact handingUpcoming (going e mem) (computed e mem) handing member unspilled

def dailyWork : Work := .member ⟨.completeTask 0 1,0,1,[],[1],1790794800000,1790794800000⟩

def dailyMoves : List (RowLock.Move Work) :=
  [.begin (choreOf (.createTask (choreDue ⟨2026,9,30⟩ (some "FREQ=DAILY"))) 1 []),.lock 0,.begin dailyWork,.lock 1,
   .commit 1]

structure Seen where
  head : Bool
  series : Option TaskSeriesId
  ruled : Bool
  anchor : Option LocalDateTime
  due : Option Due
  now : Instant
  next : Option Due
  deriving DecidableEq

def Commit.seen (e : Commit) : Option Seen := e.handing.map (fun (head,now,successor) =>
  ⟨head.isSeriesHead && decide (e.before.lockById 0 head.id = .ok (some head)),head.seriesId,head.recurrenceRule.isSome,
    head.recurrenceAnchor,head.due,now,successor.due⟩)

theorem seenHanding {e : Commit} {series : TaskSeriesId} {anchor : LocalDateTime} {due next : Option Due} {now : Instant}
    (is : e.seen = some ⟨true,some series,true,some anchor,due,now,next⟩) : ∃ rule head successor,
      e.handing = some (head,now,successor) ∧ HeadOf e.before head series rule anchor ∧ head.due = due ∧
        successor.due = next := by
  obtain ⟨⟨head,now',successor⟩,handing,values⟩ := Option.map_eq_some_iff.mp is
  simp only [Seen.mk.injEq,Bool.and_eq_true,decide_eq_true_eq] at values
  obtain ⟨⟨flagged,locked⟩,member,ruled,anchored,due,rfl,next⟩ := values
  obtain ⟨rule,isRule⟩ := Option.isSome_iff_exists.mp ruled
  exact ⟨rule,head,successor,handing,⟨⟨0,locked⟩,flagged,member,isRule,anchored⟩,due,next⟩

theorem dailyWired : ∀ w, .begin w ∈ dailyMoves → w.Wired everywhereUtc := by
  intro w mem
  simp only [dailyMoves,List.mem_cons,RowLock.Move.begin.injEq,reduceCtorEq,List.not_mem_nil,false_or,or_false] at mem
  rcases mem with rfl | rfl
  · rintro due ⟨⟩
    exact ⟨.dateTime "2026-09-30" "18:30" "Europe/London",by decide +kernel⟩
  · trivial

theorem dailyUpcoming : ∃ (e : Commit) (rule : RecurrenceRule) (head successor : Task),
    e.handing = some (head,1790794800000,successor) ∧
      successor.due = some (.dateTime ⟨2026,10,1⟩ ⟨18,30⟩ "Europe/London") ∧
      Upcoming everywhereUtc rule ⟨⟨2026,9,30⟩,18,30,0⟩ head 1790794800000 successor := by
  have run : (RowLock.run (works everywhereUtc) (RowLock.begins Store.empty) dailyMoves).map
      (fun c => (c.log.drop 1).map (fun e : Commit => (e.request,e.seen))) =
      some [(dailyWork,some ⟨true,some 0,true,some ⟨⟨2026,9,30⟩,18,30,0⟩,
        some (.dateTime ⟨2026,9,30⟩ ⟨18,30⟩ "Europe/London"),1790794800000,
        some (.dateTime ⟨2026,10,1⟩ ⟨18,30⟩ "Europe/London")⟩)] := by decide +kernel
  obtain ⟨last,ran,log⟩ := Option.map_eq_some_iff.mp run
  obtain ⟨e,none_,whole,is,none'⟩ := List.map_eq_cons_iff.mp log
  obtain rfl := List.map_eq_nil_iff.mp none'
  obtain ⟨request,seen⟩ := Prod.mk.inj is
  obtain ⟨rule,head,successor,handing,found,due,next⟩ := seenHanding seen
  have split_ : last.log = last.log.take 1 ++ e :: [] := by rw [← whole,List.take_append_drop]
  refine ⟨e,rule,head,successor,handing,next,runUpcoming everywhereUtc dailyMoves dailyWired last ran _ [] e split_ 0
    rule _ head found (fun d mem => ?_) e List.mem_cons_self head _ successor handing found.series ?_⟩
  · rw [List.mem_singleton.mp mem]
    exact keepsRule request (by rintro id version patch ⟨⟩)
  · intro date timeZone zone dueAt alone
    rw [due] at alone
    cases alone

/- Greenland: at one o'clock UTC of 31 March 2024 the clocks go from eleven in the evening to midnight. -/
def nuuk : Zone where
  offsetAt s := if s < 1711846800 then -7200 else -3600
  steady := by
    refine ⟨by decide,fun s => ?_,fun s => ?_,fun s => ⟨1711846800,fun u low high => ?_⟩⟩
    · split <;> omega
    · split <;> split <;> omega
    · split <;> split <;> omega

def nuukWork : Work := .member ⟨.completeTask 0 2,0,1,[],[1],1711847400000,1711847400000⟩

def nuukMoves : List (RowLock.Move Work) :=
  [.begin (choreOf (.createTask ⟨"Bins",none,none,none,some (.dateTime ⟨2024,3,25⟩ ⟨23,30⟩ "America/Nuuk"),
      some "FREQ=DAILY",[]⟩) 1 []),.lock 0,
   .begin (choreOf (.updateTask 0 1 ⟨none,none,none,none,some (some (.date ⟨2024,3,29⟩ "America/Nuuk")),none⟩) 1 []),
   .lock 1,.commit 1,.begin nuukWork,.lock 2,.commit 2]

/- Closed ten minutes after the clocks went on, it is handed on to a date that is over. -/
theorem overdueFromBirth : ¬ ∀ intl, AlongChains intl (Upcoming intl) := by
  intro all
  have run : (RowLock.run (works (fun _ => some nuuk)) (RowLock.begins Store.empty) nuukMoves).map
      (fun c => (c.log.drop 2).map (fun e : Commit => (e.request,e.seen))) =
      some [(nuukWork,some ⟨true,some 0,true,some ⟨⟨2024,3,25⟩,23,30,0⟩,some (.date ⟨2024,3,29⟩ "America/Nuuk"),
        1711847400000,some (.date ⟨2024,3,30⟩ "America/Nuuk")⟩)] := by decide +kernel
  obtain ⟨last,ran,log⟩ := Option.map_eq_some_iff.mp run
  obtain ⟨e,none_,whole,is,none'⟩ := List.map_eq_cons_iff.mp log
  obtain rfl := List.map_eq_nil_iff.mp none'
  obtain ⟨request,seen⟩ := Prod.mk.inj is
  obtain ⟨rule,head,successor,handing,found,-,next⟩ := seenHanding seen
  have split_ : last.log = last.log.take 2 ++ e :: [] := by rw [← whole,List.take_append_drop]
  have upcoming := all (fun _ => some nuuk) nuukMoves (fun w mem => ?_) last ran _ [] e split_ 0 rule _ head found
    (fun d mem => ?_) e List.mem_cons_self head _ successor handing found.series
  · obtain ⟨dueAt,moment,-,ends,-,after⟩ := upcoming.later
    have stop : dueMomentOf (fun _ => some nuuk) (.date ⟨2024,3,30⟩ "America/Nuuk") = some 1711846800000 := by
      decide +kernel
    simp only [Task.dueAt,next,stop,Option.map_some,Option.some.injEq] at ends
    subst ends
    exact absurd after (by decide)
  · simp only [nuukMoves,List.mem_cons,RowLock.Move.begin.injEq,reduceCtorEq,List.not_mem_nil,false_or,or_false] at mem
    rcases mem with rfl | rfl | rfl
    · rintro due ⟨⟩
      exact ⟨.dateTime "2024-03-25" "23:30" "America/Nuuk",by decide +kernel⟩
    · rintro due ⟨⟩
      exact ⟨.date "2024-03-29" "America/Nuuk",by decide +kernel⟩
    · trivial
  · rw [List.mem_singleton.mp mem]
    exact keepsRule request (by rintro id version patch ⟨⟩)

end FamilyPlatform.Tasks
