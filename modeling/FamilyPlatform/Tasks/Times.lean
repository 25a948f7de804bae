import FamilyPlatform.Tasks.Successors

/-! What a successor takes from the head that is closed, and what from the anchor of the
series: kind and zone are the head's, the time of day is the anchor's. -/
namespace FamilyPlatform.Tasks
open ZonedTime Civil Recurrence RecurrenceRule

structure OnlyDateMoves (due next : Due) : Prop where
  kind : next.kind = due.kind
  timeZone : next.timeZone = due.timeZone
  time : next.localTime = due.localTime

/- On a date alone, or at the anchor's time of day. -/
def OnTime (due : Due) (anchor : LocalDateTime) : Prop :=
  ∀ time, due.localTime = some time → time = ⟨anchor.hour,anchor.minute⟩

namespace Task

def OnTime (t : Task) : Prop := t.isSeriesHead = true → ∀ due anchor, t.due = some due →
  t.recurrenceAnchor = some anchor → Tasks.OnTime due anchor

def LeavesRule (t : Task) (patch : TaskPatch) : Prop := ∀ text rule, patch.recurrenceRule = some text →
  parseRule text = .ok rule → t.recurrenceRule.map RecurrenceRule.toText = rule.map RecurrenceRule.toText

end Task

/- No due of a head is edited to another time of day than its anchor's, but for an edit of the rule as well. -/
def Work.KeepsTime (s : Store) (w : Work) : Prop := ∀ r id version patch t due anchor, w = .member r →
  r.command = .updateTask id version patch → readLocked s w = .ok (some t) → t.isSeriesHead = true →
    t.recurrenceAnchor = some anchor → t.LeavesRule patch → patch.due = some (some due) → OnTime due anchor

def RowOnTime (row : TaskRow) : Prop := row.isSeriesHead = true → ∀ due anchor, toDue row = some (some due) →
  row.recurrenceAnchor = some anchor → OnTime due anchor

def StoreOnTime (s : Store) : Prop := ∀ id row, s.tasks.find id = some row → RowOnTime row

section
variable {intl : Intl} {s : Store} {t : Task} {w : Work} {now : Instant} {due next : Due} {anchor : LocalDateTime}

theorem ownTime (due : Due) : OnTime due (dueLocalDateTime due) := by
  intro time is
  cases due with
  | date => cases is
  | dateTime => exact (Option.some.inj is).symm

theorem readingTime (due : Due) (reading : LocalDateTime) : (dueAtReading due reading).kind = due.kind ∧
    (dueAtReading due reading).timeZone = due.timeZone ∧
      (dueAtReading due reading).localTime = due.localTime.map (fun _ => ⟨reading.hour,reading.minute⟩) := by
  cases due <;> exact ⟨rfl,rfl,rfl⟩

theorem clockOfReading {a b : LocalDateTime} (here : LocalDateTime.Clock a) (there : LocalDateTime.Clock b)
    (same : clockMs a = clockMs b) : a.hour = b.hour ∧ a.minute = b.minute := by
  unfold LocalDateTime.Clock at here there
  unfold clockMs at same
  omega

theorem successorTime (stored : Stored t) (dated : t.due = some due) (anchored : t.recurrenceAnchor = some anchor)
    (found : successorDueOf intl t now = some (.ok (some next))) : next.kind = due.kind ∧ next.timeZone = due.timeZone ∧
      next.localTime = due.localTime.map (fun _ => ⟨anchor.hour,anchor.minute⟩) := by
  obtain ⟨_,_,_,zone,dueAt,x,_,anchored',dated',_,_,occurs,rfl⟩ := nextDueSource found
  obtain rfl := Option.some.inj (dated.symm.trans dated')
  obtain rfl := Option.some.inj (anchored.symm.trans anchored')
  have based := stored.anchor anchor anchored
  obtain ⟨-,window,k,of⟩ := nextOccurs based.day based.clock occurs
  obtain ⟨hour,minute⟩ := clockOfReading of.clocked based.clock of.clock
  obtain ⟨kind,timeZone,time⟩ := readingTime due x.reading
  exact ⟨kind,timeZone,by rw [time,hour,minute]⟩

theorem successorMoves (stored : Stored t) (dated : t.due = some due)
    (found : successorDueOf intl t now = some (.ok (some next))) : OnlyDateMoves due next ↔ t.OnTime := by
  obtain ⟨_,anchor,_,_,_,_,_,anchored,_⟩ := nextDueSource found
  obtain ⟨kind,timeZone,time⟩ := successorTime stored dated anchored found
  constructor
  · intro moves flagged due' anchor' dated' anchored' at_ is
    obtain rfl := Option.some.inj (dated.symm.trans dated')
    obtain rfl := Option.some.inj (anchored.symm.trans anchored')
    have same := moves.time
    rw [time,is] at same
    exact (Option.some.inj same).symm
  · intro onTime
    refine ⟨kind,timeZone,?_⟩
    have here := onTime (successorDueSource found) due anchor dated anchored
    rw [time]
    cases at_ : due.localTime with
    | none => rfl
    | some time => exact congrArg some (here time at_).symm

theorem recurrenceAnchors {patch : TaskPatch} {n : TaskSeriesId} {e e' : Task.Edit}
    (ok : Task.updateRecurrence patch n e = .ok e') : (e.1.LeavesRule patch ∧ e' = e) ∨ e'.1.recurrenceAnchor = none ∨
      ∃ due, e'.1.due = some due ∧ e'.1.recurrenceAnchor = some (dueLocalDateTime due) := by
  unfold Task.updateRecurrence at ok
  split at ok
  · rename_i none_
    exact .inl ⟨fun text rule some_ => (by cases none_.symm.trans some_),(Except.ok.inj ok).symm⟩
  rename_i text there
  obtain ⟨rule,parsed,ok⟩ := bindSource ok
  simp only at ok
  split at ok
  · rename_i same
    refine .inl ⟨fun text' rule' some_ parsed' => ?_,(Except.ok.inj ok).symm⟩
    cases there.symm.trans some_
    cases parsed.symm.trans parsed'
    exact same
  split at ok
  · cases ok
  split at ok
  · cases ok
    exact .inr (.inl rfl)
  · cases ok
  · rename_i due _ _
    cases ok
    exact .inr (.inr ⟨due,by assumption,rfl⟩)

theorem updateAnchors {patch : TaskPatch} {n : TaskSeriesId} {t' : Task} {changed : List ChangedFieldGroup}
    (ok : t.update intl patch n = some (.ok (t',changed))) (some_ : changed ≠ []) :
    (t.LeavesRule patch ∧ t'.recurrenceAnchor = t.recurrenceAnchor ∧ t'.isSeriesHead = t.isSeriesHead) ∨
      t'.recurrenceAnchor = none ∨ ∃ due, t'.due = some due ∧ t'.recurrenceAnchor = some (dueLocalDateTime due) := by
  obtain ⟨-,titled,noted,dated,last,stages,finished⟩ := Task.updateStages ok
  obtain ⟨_,_,_,_,before⟩ := stages.dated
  rcases finished with ⟨-,-,rfl⟩ | ⟨-,rfl,rfl⟩
  · exact absurd rfl some_
  rcases recurrenceAnchors stages.recurrence with ⟨leaves,rfl⟩ | other
  · refine .inl ⟨?_,?_,?_⟩
    · simpa only [Task.LeavesRule,before] using leaves
    · simp only [Task.commit,before]
    · simp only [Task.commit,before]
  · exact .inr other

theorem viewOnTime (onTime : StoreOnTime s) (view : readLocked s w = .ok (some t)) : t.OnTime := by
  obtain ⟨row,there,link,loaded⟩ := viewRow view
  intro flagged due anchor dated anchored
  exact onTime t.id row there ((congrArg Link.isSeriesHead link).trans flagged) due anchor
    (loaded.due.trans (congrArg some dated)) (loaded.anchor.symm.trans anchored)

theorem createdOnTime {params : NewTask} {id : TaskId} {familyId : FamilyId} {series : TaskSeriesId}
    {member : FamilyMemberId} (ok : Task.create params id familyId series member = .ok t) : t.OnTime := by
  obtain ⟨-,-,-,created⟩ := Task.createSource ok
  intro _ due anchor dated anchored
  rw [created.anchor] at anchored
  split at anchored
  · rw [dated] at anchored
    exact Option.some.inj anchored ▸ ownTime due
  · cases anchored

theorem updatedOnTime {t' : Task} {patch : TaskPatch} {n : TaskSeriesId} {changed : List ChangedFieldGroup}
    (before : t.OnTime) (ok : t.update intl patch n = some (.ok (t',changed))) (some_ : changed ≠ [])
    (keeps : ∀ due anchor, t.isSeriesHead = true → t.recurrenceAnchor = some anchor → t.LeavesRule patch →
      patch.due = some (some due) → OnTime due anchor) : t'.OnTime := by
  intro flagged due anchor dated anchored
  rcases updateAnchors ok some_ with ⟨leaves,sameAnchor,sameHead⟩ | none_ | ⟨due',dated',from_⟩
  · rw [sameAnchor] at anchored
    rw [sameHead] at flagged
    rcases (Task.updateSource ok).2 with ⟨none_,-⟩ | ⟨-,edited⟩
    · exact absurd none_ some_
    rw [edited.due] at dated
    cases patched : patch.due with
    | none =>
      rw [patched] at dated
      exact before flagged due anchor dated anchored
    | some d =>
      rw [patched] at dated
      exact keeps due anchor flagged anchored leaves (patched.trans (congrArg some dated))
  · cases none_.symm.trans anchored
  · cases dated.symm.trans dated'
    cases anchored.symm.trans from_
    exact ownTime due

theorem wroteOnTime (shaped : StoreShaped s) (onTime : StoreOnTime s) (keeps : w.KeepsTime s)
    (wrote : Wrote intl s w t) : t.OnTime := by
  cases wrote with
  | created command ok => exact createdOnTime ok
  | @moved r t t' view move =>
    have before := viewOnTime onTime view
    cases move with
    | @updated id version patch _ _ command ok some_ =>
      exact updatedOnTime before ok some_ (fun due anchor flagged anchored leaves patched =>
        keeps r id version patch t due anchor rfl command view flagged anchored leaves patched)
    | completed _ ok => obtain ⟨-,rfl⟩ := Task.completeSource ok; exact before
    | cancelled _ ok => obtain ⟨-,rfl⟩ := Task.cancelSource ok; exact before
    | reopened _ ok => obtain ⟨-,rfl⟩ := Task.reopenSource ok; exact before
    | assigned _ ok => obtain ⟨-,rfl⟩ := Task.assignSource ok; exact before
    | unassigned _ ok => obtain ⟨-,rfl⟩ := Task.unassignSource ok; exact before
  | relinquished view closed =>
    intro flagged
    cases flagged
  | @succeeded r t t' due view closed found _ =>
    have stored := closed.stored (viewStored shaped view)
    intro _ next anchor dated anchored
    cases dated
    obtain ⟨_,_,due₀,_,_,_,_,_,dated,_⟩ := nextDueSource found
    obtain ⟨-,-,time⟩ := successorTime stored dated anchored found
    intro at_ is
    rw [time] at is
    obtain ⟨_,-,rfl⟩ := Option.map_eq_some_iff.mp is
    rfl
  | reported view =>
    have before := viewOnTime onTime view
    exact before

theorem workOnTime (shaped : StoreShaped s) (onTime : StoreOnTime s) (wired : w.Wired intl) (keeps : w.KeepsTime s) :
    StoreOnTime (writeLocked intl s w (readLocked s w)).2 := by
  intro id row there
  rcases workRows id row there with old | ⟨t,wrote,-,made⟩
  · exact onTime id row old
  have proper := wroteProper shaped wired wrote
  intro flagged due anchor dated anchored time is
  obtain ⟨-,d,whole,same⟩ := properDue proper made dated
  obtain ⟨-,a,some_,hour,minute⟩ := properAnchor proper made anchored
  rw [hour,minute]
  exact wroteOnTime shaped onTime keeps wrote ((columnsLink made).2 ▸ flagged) d a whole some_ time (same ▸ is)

theorem serialOnTime {last : Store} {log : List Commit} (serial : RowLock.Serial (works intl) s log last)
    (wired : ∀ e ∈ log, e.request.Wired intl) (keeps : ∀ e ∈ log, e.request.KeepsTime e.before) (shaped : StoreShaped s)
    (onTime : StoreOnTime s) : StoreOnTime last := by
  induction serial with
  | nil => exact onTime
  | @cons e rest last view made later ih =>
    have next := workShaped shaped (wired e List.mem_cons_self)
    have next' := workOnTime shaped onTime (wired e List.mem_cons_self) (keeps e List.mem_cons_self)
    rw [show readLocked e.before e.request = e.view from view.symm,
      show writeLocked intl e.before e.request e.view = (e.outcome,e.after) from made] at next next'
    exact ih (fun d mem => wired d (List.mem_cons_of_mem e mem)) (fun d mem => keeps d (List.mem_cons_of_mem e mem))
      next next'

theorem serialShaped {last : Store} {log : List Commit} (serial : RowLock.Serial (works intl) s log last)
    (wired : ∀ e ∈ log, e.request.Wired intl) (shaped : StoreShaped s) : StoreShaped last := by
  refine (serial.keeps StoreShaped (fun _ => True) (Work.Wired intl) (fun e read made wired good => ?_) wired shaped).1
  have kept := workShaped good wired
  rw [show readLocked e.before e.request = e.view from read.symm,
    show writeLocked intl e.before e.request e.view = (e.outcome,e.after) from made] at kept
  exact ⟨kept,trivial⟩

end

def OfHeads (intl : Intl) (good : List Commit → (head : Task) → (due next : Due) → Prop) : Prop :=
  ∀ moves, (∀ w, .begin w ∈ moves → w.Wired intl) → ∀ last : RowLock.Config Store Work View WorkOutcome,
    RowLock.run (works intl) (RowLock.begins Store.empty) moves = some last →
      ∀ familyId head, last.store.lockById familyId head.id = .ok (some head) → ∀ due next closedAt,
        head.due = some due → successorDueOf intl head closedAt = some (.ok (some next)) → good last.log head due next

/-- Only the date moves if and only if the head is due on a date alone or at its anchor's time of day: so every head
is, as long as no edit of a due alone has moved one to another time. -/
theorem headsOnTime (intl : Intl) : OfHeads intl (fun log head due next =>
    (OnlyDateMoves due next ↔ head.OnTime) ∧ ((∀ e ∈ log, e.request.KeepsTime e.before) → head.OnTime)) := by
  intro moves wired last ran familyId head locked due next closedAt dated found
  obtain ⟨serial,requests⟩ := RowLock.runSerial worksFramed wired ran
  obtain ⟨row,there,link,loaded⟩ := lockRow locked
  have empty : ∀ {P : TaskRow → Prop}, ∀ id row, Store.empty.tasks.find id = some row → P row := by
    intro P id row none_
    cases none_
  have stored := loadedStored (serialShaped serial requests empty _ row there) loaded
  refine ⟨successorMoves stored dated found,fun keeps flagged due anchor dated anchored => ?_⟩
  exact serialOnTime serial requests keeps empty empty _ row there ((congrArg Link.isSeriesHead link).trans flagged) due
    anchor (loaded.due.trans (congrArg some dated)) (loaded.anchor.symm.trans anchored)

def headSeen (s : Store) (taskId : TaskId) (closedAt : Instant) : Option (Due × Due) :=
  match s.lockById 0 taskId with
  | .ok (some head) => match head.due, successorDueOf everywhereUtc head closedAt with
    | some due, some (.ok (some next)) => if head.id = taskId then some (due,next) else none
    | _, _ => none
  | _ => none

theorem seenHead {s : Store} {taskId : TaskId} {closedAt : Instant} {due next : Due}
    (seen : headSeen s taskId closedAt = some (due,next)) : ∃ head, s.lockById 0 head.id = .ok (some head) ∧
      head.due = some due ∧ successorDueOf everywhereUtc head closedAt = some (.ok (some next)) := by
  unfold headSeen at seen
  split at seen
  · rename_i head locked
    split at seen
    · rename_i due' next' dated found
      split at seen
      · rename_i own
        cases seen
        exact ⟨head,own ▸ locked,dated,found⟩
      · cases seen
    · cases seen
  · cases seen

theorem eveningStays : ∃ head : Task, head.due = some (.dateTime ⟨2026,10,1⟩ ⟨18,30⟩ "Europe/London") ∧ head.OnTime ∧
    OnlyDateMoves (.dateTime ⟨2026,10,1⟩ ⟨18,30⟩ "Europe/London") (.dateTime ⟨2026,10,2⟩ ⟨18,30⟩ "Europe/London") := by
  have run : (RowLock.run (works everywhereUtc) (RowLock.begins Store.empty) dailyMoves).map (fun c =>
      (c.log.map (fun e : Commit => e.request),headSeen c.store 1 1790854200000)) =
      some ([choreOf (.createTask (choreDue ⟨2026,9,30⟩ (some "FREQ=DAILY"))) 1 [],dailyWork],
        some (.dateTime ⟨2026,10,1⟩ ⟨18,30⟩ "Europe/London",.dateTime ⟨2026,10,2⟩ ⟨18,30⟩ "Europe/London")) := by
    decide +kernel
  obtain ⟨last,ran,is⟩ := Option.map_eq_some_iff.mp run
  obtain ⟨requests,seen⟩ := Prod.mk.inj is
  obtain ⟨head,locked,dated,found⟩ := seenHead seen
  obtain ⟨iff_,onTime⟩ := headsOnTime everywhereUtc dailyMoves dailyWired last ran 0 head locked _ _ _ dated found
  have stays : head.OnTime := onTime (fun e mem r id version patch t due anchor request command => ?_)
  · exact ⟨head,dated,stays,iff_.mpr stays⟩
  have among : e.request ∈ [choreOf (.createTask (choreDue ⟨2026,9,30⟩ (some "FREQ=DAILY"))) 1 [],dailyWork] :=
    requests ▸ List.mem_map_of_mem mem
  simp only [choreOf,dailyWork,List.mem_cons,List.not_mem_nil,or_false] at among
  rcases among with is | is
  · rw [request] at is
    cases is
    cases command
  · rw [request] at is
    cases is
    cases command

def eightMoves : List (RowLock.Move Work) :=
  [.begin (choreOf (.createTask (choreDue ⟨2026,9,30⟩ (some "FREQ=DAILY"))) 1 []),.lock 0,
   .begin (choreOf (.updateTask 0 1
     ⟨none,none,none,none,some (some (.dateTime ⟨2026,9,30⟩ ⟨20,0⟩ "Europe/London")),none⟩) 1 []),.lock 1,.commit 1]

/- The next one is at half past six again. -/
theorem eightForgotten : ¬ ∀ intl, OfHeads intl (fun _ _ due next => OnlyDateMoves due next) := by
  intro all
  have run : (RowLock.run (works everywhereUtc) (RowLock.begins Store.empty) eightMoves).map (fun c =>
      headSeen c.store 0 1790798400000) = some (some (.dateTime ⟨2026,9,30⟩ ⟨20,0⟩ "Europe/London",
        .dateTime ⟨2026,10,1⟩ ⟨18,30⟩ "Europe/London")) := by decide +kernel
  obtain ⟨last,ran,seen⟩ := Option.map_eq_some_iff.mp run
  obtain ⟨head,locked,dated,found⟩ := seenHead seen
  have moves := all everywhereUtc eightMoves (fun w mem => ?_) last ran 0 head locked _ _ _ dated found
  · exact absurd moves.time (by decide)
  · simp only [eightMoves,List.mem_cons,RowLock.Move.begin.injEq,reduceCtorEq,List.not_mem_nil,false_or,or_false] at mem
    rcases mem with rfl | rfl
    · rintro due ⟨⟩
      exact ⟨.dateTime "2026-09-30" "18:30" "Europe/London",by decide +kernel⟩
    · rintro due ⟨⟩
      exact ⟨.dateTime "2026-09-30" "20:00" "Europe/London",by decide +kernel⟩

end FamilyPlatform.Tasks
