import FamilyPlatform.Kernel.Crowded
import FamilyPlatform.Tasks.Advances
import FamilyPlatform.Tasks.Times

/-! The closes that are refused because the search for the next date comes to more of them
at once than an expansion may hold: when they are, and a head that cannot be closed. -/
namespace FamilyPlatform.Tasks
open ZonedTime Civil Recurrence RecurrenceRule

def searchOf (intl : Intl) (head : Task) (closedAt : Instant) : Option NextOccurrenceInput := do
  match head.isSeriesHead, head.recurrenceRule, head.recurrenceAnchor, head.due, ← head.dueAt intl with
  | true, some rule, some anchor, some due, some dueAt =>
    (intl due.timeZone).map (fun zone => ⟨rule,anchor,zone,max dueAt closedAt⟩)
  | _, _, _, _, _ => none

/- The first of its windows that has a date has more of them than an expansion may hold. -/
def Cramped (intl : Intl) (head : Task) (closedAt : Instant) : Prop :=
  ∃ input, searchOf intl head closedAt = some input ∧ FirstCrowded input input.windows

def Command.isClose : Command → Bool
  | .completeTask _ _ | .cancelTask _ _ _ => true
  | .createTask _ | .updateTask _ _ _ | .reopenTask _ _ | .assignTask _ _ | .unassignTask _ _ => false

structure Closing (intl : Intl) (s : Store) (r : Request) (t' : Task) : Prop where
  closes : r.command.closes = true
  moved : ∃ t, readLocked s (.member r) = .ok (some t) ∧ visibleTask r (some t) = .ok t ∧ Moved intl r s.issued t t'
  saved : ∃ saved, s.save intl t' = .ok saved

def Refused (intl : Intl) (s : Store) (r : Request) (e : DomainError) : Prop :=
  (writeLocked intl s (.member r) (readLocked s (.member r))).1 = .replied (.ok (.error e))

section
variable {intl : Intl} {s : Store} {r : Request} {t t' head : Task} {closedAt : Instant}

theorem searchSource {input : NextOccurrenceInput} (found : searchOf intl head closedAt = some input) :
    head.isSeriesHead = true ∧ head.recurrenceRule = some input.rule ∧ head.recurrenceAnchor = some input.dtstart ∧
      ∃ due dueAt, head.due = some due ∧ intl due.timeZone = some input.zone ∧ head.dueAt intl = some (some dueAt) ∧
        input.after = max dueAt closedAt := by
  simp only [searchOf,bind,Option.bind_eq_some_iff] at found
  obtain ⟨dueAt,moment,found⟩ := found
  split at found
  · rename_i rule anchor due dueAt flagged ruled anchored dated
    obtain ⟨zone,named,rfl⟩ := Option.map_eq_some_iff.mp found
    exact ⟨flagged,ruled,anchored,due,dueAt,dated,named,moment,rfl⟩
  · cases found

theorem successorError {e : DomainError} : successorDueOf intl head closedAt = some (.error e) ↔
    ∃ input, searchOf intl head closedAt = some input ∧ nextOccurrenceAfter input = some (.error e) := by
  constructor
  · intro refused
    simp only [successorDueOf,bind,Option.bind_eq_some_iff] at refused
    obtain ⟨dueAt,moment,refused⟩ := refused
    split at refused
    · rename_i rule anchor due dueAt flagged ruled anchored dated
      obtain ⟨zone,named,refused⟩ := Option.bind_eq_some_iff.mp refused
      obtain ⟨result,searched,is⟩ := Option.bind_eq_some_iff.mp refused
      refine ⟨⟨rule,anchor,zone,max dueAt closedAt⟩,?_,?_⟩
      · simp only [searchOf,bind,moment,Option.bind_some,flagged,ruled,anchored,dated,named,Option.map_some]
      · cases result with
        | error other =>
          cases is
          exact searched
        | ok found => cases is
    · cases refused
  · rintro ⟨⟨rule,anchor,zone,after⟩,search,refused⟩
    obtain ⟨flagged,ruled,anchored,due,dueAt,dated,named,moment,rfl⟩ := searchSource search
    simp only [successorDueOf,bind,moment,Option.bind_some,flagged,ruled,anchored,dated,named,refused]
    rfl

theorem searchAfter {input : NextOccurrenceInput} (stored : Stored head) (found : searchOf intl head closedAt = some input) :
    Based input.dtstart ∧ closedAt ≤ input.after := by
  obtain ⟨-,-,anchored,-,dueAt,-,-,-,is⟩ := searchSource found
  exact ⟨stored.anchor _ anchored,is ▸ le_max_right dueAt closedAt⟩

theorem successorTooDense (stored : Stored head) (low : -(latest * ZonedTime.msPerDay) ≤ closedAt) {limit : Nat} :
    successorDueOf intl head closedAt = some (.error (.recurrenceTooDense limit)) ↔
      limit = maxOccurrences ∧ Cramped intl head closedAt := by
  rw [successorError]
  constructor
  · rintro ⟨input,search,refused⟩
    obtain ⟨based,after⟩ := searchAfter stored search
    obtain ⟨is,crowded⟩ := (nextTooDense based.day based.clock (le_trans low after)).mp refused
    cases is
    exact ⟨rfl,input,search,crowded⟩
  · rintro ⟨rfl,input,search,crowded⟩
    obtain ⟨based,after⟩ := searchAfter stored search
    exact ⟨input,search,(nextTooDense based.day based.clock (le_trans low after)).mpr ⟨rfl,crowded⟩⟩

theorem visibleRefusal {limit : Nat} {found : Option Task} : visibleTask r found ≠ .error (.recurrenceTooDense limit) := by
  unfold visibleTask
  intro is
  split at is
  · cases is
  · split at is
    · cases is
    · split at is <;> cases is

theorem completeRefusal {limit : Nat} {member : FamilyMemberId} {now : Instant} :
    t.complete member now ≠ .error (.recurrenceTooDense limit) := by
  unfold Task.complete
  intro is
  split at is <;> cases is

theorem cancelRefusal {limit : Nat} {member : FamilyMemberId} {now : Instant} :
    t.cancel member now ≠ .error (.recurrenceTooDense limit) := by
  unfold Task.cancel
  intro is
  split at is <;> cases is

theorem spawnRefusal {e : DomainError} :
    spawnSuccessor intl s r t = .ok (.error e) ↔ successorDueOf intl t r.now = some (.error e) := by
  constructor
  · intro refused
    unfold spawnSuccessor at refused
    obtain ⟨found,computed,refused⟩ := bindSource refused
    rw [orThrowSource computed]
    split at refused
    · cases refused
      rfl
    · cases refused
    · obtain ⟨handed,-,refused⟩ := bindSource refused
      obtain ⟨last,-,refused⟩ := bindSource refused
      cases refused
  · intro found
    simp only [spawnSuccessor,found]
    rfl

theorem saveAndRefusal {moved : Result Task} {after : Store → Task → Answer} {e : DomainError} :
    saveAnd intl s moved after = .ok (.error e) ↔
      moved = .error e ∨ ∃ t' saved, moved = .ok t' ∧ s.save intl t' = .ok saved ∧ after saved t' = .ok (.error e) := by
  constructor
  · intro refused
    unfold saveAnd at refused
    split at refused
    · cases refused
      exact .inl rfl
    · rename_i t'
      obtain ⟨saved,kept,refused⟩ := bindSource refused
      exact .inr ⟨t',saved,rfl,kept,refused⟩
  · rintro (rfl | ⟨t',saved,rfl,kept,refused⟩)
    · rfl
    · simp only [saveAnd,kept]
      exact refused

theorem refusedSource {e : DomainError} : Refused intl s r e ↔ performLocked intl s r (readLocked s (.member r)) = .ok (.error e) := by
  simp only [Refused,writeLocked,WorkOutcome.replied.injEq]
  generalize performLocked intl s r (readLocked s (.member r)) = answer
  cases answer with
  | error e => simp [settle]
  | ok result => cases result <;> simp [settle]

theorem tooDenseCloses (close : r.command.isClose = true) {limit : Nat}
    (refused : Refused intl s r (.recurrenceTooDense limit)) :
    ∃ t', Closing intl s r t' ∧ successorDueOf intl t' r.now = some (.error (.recurrenceTooDense limit)) := by
  rw [refusedSource] at refused
  unfold performLocked at refused
  split at refused
  · rename_i command
    rw [command] at close
    cases close
  obtain ⟨seen,view,refused⟩ := bindSource refused
  split at refused
  · rename_i visible
    cases refused
    exact absurd visible visibleRefusal
  rename_i t visible
  obtain rfl := visibleSource visible
  unfold lockedWork at refused
  cases command : r.command with
  | completeTask id version =>
    simp only [command,completeLocked] at refused
    rcases saveAndRefusal.mp refused with moved | ⟨t',saved,moved,kept,refused⟩
    · exact absurd moved completeRefusal
    · exact ⟨t',⟨by rw [command]; rfl,⟨t,view,visible,.completed command moved⟩,saved,kept⟩,spawnRefusal.mp refused⟩
  | cancelTask id version scope =>
    simp only [command,cancelLocked] at refused
    rcases saveAndRefusal.mp refused with moved | ⟨t',saved,moved,kept,refused⟩
    · exact absurd moved cancelRefusal
    cases scope with
    | series => cases refused
    | instance_ =>
      rw [if_neg (by decide)] at refused
      exact ⟨t',⟨by rw [command]; rfl,⟨t,view,visible,.cancelled command moved⟩,saved,kept⟩,spawnRefusal.mp refused⟩
  | createTask | updateTask | reopenTask | assignTask | unassignTask =>
    rw [command] at close
    cases close

theorem closesTooDense {t' : Task} {limit : Nat} (closing : Closing intl s r t')
    (found : successorDueOf intl t' r.now = some (.error (.recurrenceTooDense limit))) :
    Refused intl s r (.recurrenceTooDense limit) := by
  rw [refusedSource]
  obtain ⟨t,view,visible,move⟩ := closing.moved
  obtain ⟨saved,kept⟩ := closing.saved
  have spawned : spawnSuccessor intl saved r t' = .ok (.error (.recurrenceTooDense limit)) := spawnRefusal.mpr found
  have closes := closing.closes
  unfold performLocked
  cases move with
  | completed command moved =>
    simp only [command,view,bind,Except.bind,visible,lockedWork,completeLocked]
    exact saveAndRefusal.mpr (.inr ⟨t',saved,moved,kept,spawned⟩)
  | @cancelled id version scope _ command moved =>
    cases scope with
    | series =>
      rw [command] at closes
      cases closes
    | instance_ =>
      simp only [command,view,bind,Except.bind,visible,lockedWork,cancelLocked]
      exact saveAndRefusal.mpr (.inr ⟨t',saved,moved,kept,(if_neg (by decide)).trans spawned⟩)
  | updated command => rw [command] at closes; cases closes
  | reopened command => rw [command] at closes; cases closes
  | assigned command => rw [command] at closes; cases closes
  | unassigned command => rw [command] at closes; cases closes

theorem closeTooDense (close : r.command.isClose = true) {limit : Nat} : Refused intl s r (.recurrenceTooDense limit) ↔
    ∃ t', Closing intl s r t' ∧ successorDueOf intl t' r.now = some (.error (.recurrenceTooDense limit)) :=
  ⟨tooDenseCloses close,fun ⟨_,closing,found⟩ => closesTooDense closing found⟩

end

def OfCloses (intl : Intl) (good : Store → Request → Prop) : Prop :=
  ∀ moves, (∀ w, .begin w ∈ moves → w.Wired intl) → ∀ last : RowLock.Config Store Work View WorkOutcome,
    RowLock.run (works intl) (RowLock.begins Store.empty) moves = some last →
      ∀ r : Request, r.command.isClose = true → RealInstant r.now → good last.store r

def OfSearches (good : NextOccurrenceInput → Prop) : Prop :=
  ∀ (text : String) (rule : RecurrenceRule), parse text = .ok rule → ∀ (dtstart : LocalDateTime) (zone : Zone) (after : Instant),
    StartDay dtstart.toDate → LocalDateTime.Clock dtstart → RealInstant after → good ⟨rule,dtstart,zone,after⟩

/-- No search is refused as too dense but one whose first window that has an occurrence has more than the limit, and so
no close but one that hands on a head whose search is such a one. -/
theorem closesNotTooDense (intl : Intl) :
    OfSearches (fun input => (∀ limit, nextOccurrenceAfter input ≠ some (.error (.recurrenceTooDense limit))) ↔
      ¬ FirstCrowded input input.windows) ∧
    OfCloses intl (fun s r => (∀ limit, ¬ Refused intl s r (.recurrenceTooDense limit)) ↔
      ∀ t', Closing intl s r t' → ¬ Cramped intl t' r.now) := by
  constructor
  · intro text rule _ dtstart zone after s clock real
    have tooDense := fun limit => @nextTooDense ⟨rule,dtstart,zone,after⟩ s clock real.1 (.recurrenceTooDense limit)
    constructor
    · intro never crowded
      exact never _ ((tooDense _).mpr ⟨rfl,crowded⟩)
    · intro not limit refused
      exact not ((tooDense limit).mp refused).2
  · intro moves wired last ran r close real
    obtain ⟨serial,requests⟩ := RowLock.runSerial worksFramed wired ran
    have empty : StoreShaped Store.empty := by
      intro id row none_
      cases none_
    have shaped := serialShaped serial requests empty
    have tooDense : ∀ t', Closing intl last.store r t' → ∀ limit,
        (successorDueOf intl t' r.now = some (.error (.recurrenceTooDense limit)) ↔
          limit = maxOccurrences ∧ Cramped intl t' r.now) := by
      intro t' closing limit
      obtain ⟨t,view,-,move⟩ := closing.moved
      exact successorTooDense ((movedCloses move closing.closes).stored (viewStored shaped view)) real.1
    constructor
    · intro never t' closing cramped
      exact never _ ((closeTooDense close).mpr ⟨t',closing,(tooDense t' closing _).mpr ⟨rfl,cramped⟩⟩)
    · intro not limit refused
      obtain ⟨t',closing,found⟩ := (closeTooDense close).mp refused
      exact not t' closing ((tooDense t' closing limit).mp found).2

def completed (intl : Intl) (s : Store) (r : Request) : Option Task :=
  match readLocked s (.member r), r.command with
  | .ok (some t), .completeTask _ _ => match visibleTask r (some t), t.complete r.memberId r.now with
    | .ok _, .ok t' => if (s.save intl t').toOption.isSome then some t' else none
    | _, _ => none
  | _, _ => none

theorem completedClosing {intl : Intl} {s : Store} {r : Request} {t' : Task} (is : completed intl s r = some t') :
    Closing intl s r t' := by
  unfold completed at is
  split at is
  · rename_i t id version view command
    split at is
    · rename_i seen closed visible moved
      split at is
      · rename_i saved
        cases is
        cases visibleSource visible
        refine ⟨by rw [command]; rfl,⟨t,view,visible,.completed command moved⟩,?_⟩
        cases kept : s.save intl t' with
        | error e =>
          rw [kept] at saved
          cases saved
        | ok next => exact ⟨next,rfl⟩
      · cases is
    · cases is
  · cases is

theorem dailyParsed : ∃ rule, parse "FREQ=DAILY" = .ok rule ∧ EveryDay rule := by
  have is : (parse "FREQ=DAILY").map (fun rule => decide (EveryDay rule)) = .ok true := by decide +kernel
  cases parsed : parse "FREQ=DAILY" with
  | error e =>
    rw [parsed] at is
    cases is
  | ok rule =>
    rw [parsed] at is
    exact ⟨rule,rfl,of_decide_eq_true (Except.ok.inj is)⟩

def lateRequest : Request := ⟨.completeTask 0 1,0,1,[],[1],1790794800000,1790794800000⟩

def createdMoves : List (RowLock.Move Work) :=
  [.begin (choreOf (.createTask (choreDue ⟨2026,9,30⟩ (some "FREQ=DAILY"))) 1 []),.lock 0]

def WorkOutcome.refused : WorkOutcome → Bool
  | .replied (.ok (.error _)) => true
  | _ => false

theorem lateNotCramped : ∃ s t', Closing everywhereUtc s lateRequest t' ∧ ¬ Cramped everywhereUtc t' lateRequest.now := by
  have run : (RowLock.run (works everywhereUtc) (RowLock.begins Store.empty) createdMoves).map (fun c =>
      ((completed everywhereUtc c.store lateRequest).isSome,
        (writeLocked everywhereUtc c.store (.member lateRequest) (readLocked c.store (.member lateRequest))).1.refused)) =
      some (true,false) := by decide +kernel
  obtain ⟨last,ran,is⟩ := Option.map_eq_some_iff.mp run
  obtain ⟨some_,answered⟩ := Prod.mk.inj is
  obtain ⟨t',closed⟩ := Option.isSome_iff_exists.mp some_
  have closing := completedClosing closed
  refine ⟨last.store,t',closing,(((closesNotTooDense everywhereUtc).2 createdMoves (fun w mem => ?_) last ran lateRequest rfl
    (by decide)).mp (fun limit refused => ?_)) t' closing⟩
  · refine dailyWired w ?_
    simp only [createdMoves,dailyMoves,List.mem_cons,reduceCtorEq,List.not_mem_nil,false_or,or_false] at mem ⊢
    exact .inl mem
  · rw [show (writeLocked everywhereUtc last.store (.member lateRequest) _).1 = _ from refused] at answered
    cases answered

def hurriedMoves : List (RowLock.Move Work) :=
  [.begin (choreOf (.createTask (choreDue ⟨2035,3,10⟩ (some "FREQ=DAILY"))) 1 []),.lock 0,
   .begin (choreOf (.updateTask 0 1
     ⟨none,none,none,none,some (some (.dateTime ⟨2026,9,30⟩ ⟨18,30⟩ "Europe/London")),none⟩) 1 []),.lock 1,.commit 1]

def hurriedRequest : Request := ⟨.completeTask 0 2,0,1,[],[1],1790794800000,1790794800000⟩

def hurriedSearch (rule : RecurrenceRule) : NextOccurrenceInput :=
  ⟨rule,⟨⟨2035,3,10⟩,18,30,0⟩,Zone.utc,1790794800000⟩

theorem hurriedTooDense {rule : RecurrenceRule} (every : EveryDay rule) :
    nextOccurrenceAfter (hurriedSearch rule) = some (.error (.recurrenceTooDense maxOccurrences)) := by
  have day : StartDate ⟨2035,3,10⟩ := by decide
  have clock : LocalDateTime.Clock ⟨⟨2035,3,10⟩,18,30,0⟩ := by decide
  have real : RealInstant (1790794800000 + 1 + 4094 * msPerDay) := by decide
  have resolved : localToInstant Zone.utc ⟨⟨2035,3,10⟩,18,30,0⟩ = some 2057164200000 := by decide +kernel
  have room : Date.number ⟨2035,3,10⟩ + (maxOccurrences + 1 : Nat) + 2 ≤ latest := by decide
  have later : (1790794800000 : Instant) + 1 + 2046 * msPerDay ≤ 2057164200000 := by decide
  have earlier : (2057164200000 : Instant) ≤ 1790794800000 + 1 + 3092 * msPerDay := by decide
  have low : -(latest * msPerDay) ≤ (1790794800000 : Instant) := by decide
  exact (@nextTooDense (hurriedSearch rule) day.day clock low _).mpr
    ⟨rfl,@everyDayTooDense (hurriedSearch rule) _ day clock every real resolved room later earlier⟩

theorem hurriedRefused : ¬ OfSearches (fun input => ∀ limit, nextOccurrenceAfter input ≠
      some (.error (.recurrenceTooDense limit))) ∧
    ¬ ∀ intl, OfCloses intl (fun s r => ∀ limit, ¬ Refused intl s r (.recurrenceTooDense limit)) := by
  constructor
  · intro all
    obtain ⟨rule,parsed,every⟩ := dailyParsed
    exact all _ rule parsed ⟨⟨2035,3,10⟩,18,30,0⟩ Zone.utc 1790794800000 ⟨by decide,by decide,by decide⟩ (by decide)
      (by decide) maxOccurrences (hurriedTooDense every)
  · intro all
    have run : (RowLock.run (works everywhereUtc) (RowLock.begins Store.empty) hurriedMoves).map (fun c =>
        (completed everywhereUtc c.store hurriedRequest).map (fun t =>
          t.isSeriesHead && t.recurrenceRule.any (fun rule => decide (EveryDay rule)) &&
            t.recurrenceAnchor = some ⟨⟨2035,3,10⟩,18,30,0⟩ &&
              t.due = some (.dateTime ⟨2026,9,30⟩ ⟨18,30⟩ "Europe/London"))) = some (some true) := by decide +kernel
    obtain ⟨last,ran,is⟩ := Option.map_eq_some_iff.mp run
    obtain ⟨t',closed,seen⟩ := Option.map_eq_some_iff.mp is
    simp only [Bool.and_eq_true,Option.any_eq_true,decide_eq_true_eq] at seen
    obtain ⟨⟨⟨flagged,rule,ruled,every⟩,anchored⟩,dated⟩ := seen
    have moment : t'.dueAt everywhereUtc = some (some 1790793000000) := by
      rw [Task.dueAt,dated]
      decide +kernel
    have search : searchOf everywhereUtc t' hurriedRequest.now = some (hurriedSearch rule) := by
      simp only [searchOf,bind,moment,Option.bind_some,flagged,ruled,anchored,dated]
      rfl
    refine all everywhereUtc hurriedMoves (fun w mem => ?_) last ran hurriedRequest rfl (by decide) maxOccurrences
      ((closeTooDense rfl).mpr ⟨t',completedClosing closed,successorError.mpr ⟨_,search,hurriedTooDense every⟩⟩)
    simp only [hurriedMoves,List.mem_cons,RowLock.Move.begin.injEq,reduceCtorEq,List.not_mem_nil,false_or,or_false] at mem
    rcases mem with rfl | rfl
    · rintro due ⟨⟩
      exact ⟨.dateTime "2035-03-10" "18:30" "Europe/London",by decide +kernel⟩
    · rintro due ⟨⟩
      exact ⟨.dateTime "2026-09-30" "18:30" "Europe/London",by decide +kernel⟩

end FamilyPlatform.Tasks
