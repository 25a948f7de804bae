import FamilyPlatform.Tasks.Reached
import FamilyPlatform.Tasks.Shapes
import FamilyPlatform.Tasks.Versions

/-! The heads of one series, while nobody edits its rule: each keeps the rule and the
anchor, and hands both on when it is closed. -/
namespace FamilyPlatform.Tasks
open ZonedTime Recurrence RecurrenceRule

structure HeadOf (s : Store) (h : Task) (series : TaskSeriesId) (rule : RecurrenceRule) (anchor : LocalDateTime) :
    Prop where
  locked : ∃ familyId, s.lockById familyId h.id = .ok (some h)
  head : h.isSeriesHead = true
  series : h.seriesId = some series
  rule : h.recurrenceRule = some rule
  anchor : h.recurrenceAnchor = some anchor

def Commit.KeepsRule (e : Commit) (series : TaskSeriesId) : Prop := ∀ r id version patch row, e.request = .member r →
  r.command = .updateTask id version patch → e.before.tasks.find id = some row → row.seriesId = some series →
    patch.recurrenceRule = none

theorem keepsRule {e : Commit} {r : Request} {series : TaskSeriesId} (request : e.request = .member r)
    (patched : ∀ id version patch, r.command = .updateTask id version patch → patch.recurrenceRule = none) :
    e.KeepsRule series := by
  intro r' id version patch row same command _ _
  rw [request] at same
  cases same
  exact patched id version patch command

def Commit.handing (e : Commit) : Option (Task × Instant × Task) :=
  match e.request, readLocked e.before e.request, e.outcome with
  | .member r, .ok (some head), .replied (.ok (.ok ⟨_,some successor⟩)) => some (head,r.now,successor)
  | _, _, _ => none

def Headed (s : Store) (series : TaskSeriesId) (rule : RecurrenceRule) (anchor : LocalDateTime) : Prop :=
  ∀ id row, s.tasks.find id = some row → row.seriesId = some series → row.isSeriesHead = true →
    row.recurrenceAnchor = some anchor ∧ ∀ found, storedRule row = .ok found → found = some rule

structure Going (intl : Intl) (s : Store) (series : TaskSeriesId) (rule : RecurrenceRule) (anchor : LocalDateTime) :
    Prop where
  standing : s.Standing intl
  shaped : StoreShaped s
  ruled : Exact rule
  based : Based anchor
  drawn : series < s.issued
  headed : Headed s series rule anchor

section
variable {intl : Intl} {s next : Store} {t h : Task} {w : Work} {series : TaskSeriesId} {rule : RecurrenceRule}
  {anchor : LocalDateTime}

theorem lockRow {familyId : FamilyId} (ok : s.lockById familyId t.id = .ok (some t)) :
    ∃ row, s.tasks.find t.id = some row ∧ row.link = t.link ∧ Loaded row (s.assigneesOf t.id) t := by
  obtain ⟨row,there,-,-,loaded⟩ := Store.lockSource ok
  have linked := meetsLock s familyId t.id
  rw [ok] at linked
  obtain ⟨other,mem,same⟩ := List.mem_map.mp (linked t rfl).1
  have own : other.id = t.id := congrArg Link.id same
  obtain rfl := Option.some.inj ((own ▸ Table.findMember mem).symm.trans there)
  exact ⟨other,there,same,loaded⟩

theorem viewRow (view : readLocked s w = .ok (some t)) :
    ∃ row, s.tasks.find t.id = some row ∧ row.link = t.link ∧ Loaded row (s.assigneesOf t.id) t := by
  obtain ⟨-,-,-,locked,-⟩ := viewSource view
  exact lockRow locked

theorem ruleExact {row : TaskRow} (stored : storedRule row = .ok (some rule)) : Exact rule := by
  unfold storedRule at stored
  split at stored
  · cases stored
  · split at stored <;> cases stored
    exact parseExact (by assumption)

theorem ruleAgain {row : TaskRow} (exact_ : Exact rule) (is : t.recurrenceRule = some rule)
    (made : columns intl t = .ok row.toTaskColumns) {found : Option RecurrenceRule} (stored : storedRule row = .ok found) :
    found = some rule := by
  obtain ⟨_,_,_,_,-,-,-,-,columns_⟩ := columnsSource made
  have text := congrArg TaskColumns.recurrenceRule columns_
  simp only [columnsOf,is,Option.map_some] at text
  unfold storedRule at stored
  simp only [text] at stored
  split at stored <;> cases stored
  exact congrArg some (parseAgain exact_ (by assumption))

theorem columnsLink {row : TaskRow} (made : columns intl t = .ok row.toTaskColumns) : row.seriesId = t.seriesId ∧
    row.isSeriesHead = t.isSeriesHead := by
  obtain ⟨_,_,_,_,-,-,-,-,columns_⟩ := columnsSource made
  exact ⟨congrArg TaskColumns.seriesId columns_,congrArg TaskColumns.isSeriesHead columns_⟩

theorem Task.updateKeeps {patch : TaskPatch} {n : TaskSeriesId} {t' : Task} {changed : List ChangedFieldGroup}
    (ok : t.update intl patch n = some (.ok (t',changed))) (keeps : patch.recurrenceRule = none) :
    t'.recurrenceRule = t.recurrenceRule ∧ t'.recurrenceAnchor = t.recurrenceAnchor := by
  obtain ⟨-,titled,noted,dated,last,stages,finished⟩ := updateStages ok
  have unruled := stages.recurrence
  simp only [updateRecurrence,keeps] at unruled
  obtain rfl := Except.ok.inj unruled
  obtain ⟨_,_,_,_,before⟩ := stages.dated
  rcases finished with ⟨-,rfl,rfl⟩ | ⟨-,rfl,rfl⟩
  · exact ⟨rfl,rfl⟩
  · simp only [commit,before,and_self]

structure Bears (t t' : Task) : Prop where
  series : t'.seriesId = t.seriesId
  head : t'.isSeriesHead = true → t.isSeriesHead = true
  rule : t'.recurrenceRule = t.recurrenceRule
  anchor : t'.recurrenceAnchor = t.recurrenceAnchor

theorem Headed.bears {t' : Task} (headed : Headed s series rule anchor) (view : readLocked s w = .ok (some t))
    (bears : Bears t t') (member : t'.seriesId = some series) (head : t'.isSeriesHead = true) :
    t'.recurrenceRule = some rule ∧ t'.recurrenceAnchor = some anchor := by
  rw [bears.rule,bears.anchor]
  obtain ⟨row,there,link,loaded⟩ := viewRow view
  have sameSeries : row.seriesId = t.seriesId := congrArg Link.seriesId link
  have sameHead : row.isSeriesHead = t.isSeriesHead := congrArg Link.isSeriesHead link
  obtain ⟨anchored,ruled⟩ := headed t.id row there
    (sameSeries.trans (bears.series.symm.trans member)) (sameHead.trans (bears.head head))
  exact ⟨ruled _ loaded.rule,loaded.anchor.trans anchored⟩

theorem movedSeries {r : Request} {t' : Task} (chained : Chained s.issued s.links) (drawn : series < s.issued)
    (view : readLocked s w = .ok (some t)) (move : Moved intl r s.issued t t') (member : t'.seriesId = some series)
    (head : t'.isSeriesHead = true) : t.seriesId = some series ∧ t.isSeriesHead = true := by
  cases move with
  | updated _ ok =>
    obtain ⟨row,there,link,-⟩ := viewRow view
    have linked : t.link ∈ s.links := link ▸ List.mem_map_of_mem (Table.findSource there).1
    rcases (updateLink ok (chained.shaped _ linked)).1 with same | starts
    · have sameSeries : t'.seriesId = t.seriesId := same.series
      exact ⟨sameSeries.symm.trans member,same.head head⟩
    · have fresh : t'.seriesId = some s.issued := starts.series
      rw [fresh] at member
      exact absurd (Option.some.inj member) (ne_of_gt drawn)
  | completed _ ok => obtain ⟨-,rfl⟩ := Task.completeSource ok; exact ⟨member,head⟩
  | cancelled _ ok => obtain ⟨-,rfl⟩ := Task.cancelSource ok; exact ⟨member,head⟩
  | reopened _ ok => obtain ⟨-,rfl⟩ := Task.reopenSource ok; exact ⟨member,head⟩
  | assigned _ ok => obtain ⟨-,rfl⟩ := Task.assignSource ok; exact ⟨member,head⟩
  | unassigned _ ok => obtain ⟨-,rfl⟩ := Task.unassignSource ok; exact ⟨member,head⟩

theorem wroteHeaded (chained : Chained s.issued s.links) (drawn : series < s.issued)
    (headed : Headed s series rule anchor) (wrote : Wrote intl s w t)
    (keeps : ∀ r id version patch row, w = .member r → r.command = .updateTask id version patch →
      s.tasks.find id = some row → row.seriesId = some series → patch.recurrenceRule = none)
    (member : t.seriesId = some series) (head : t.isSeriesHead = true) :
    t.recurrenceRule = some rule ∧ t.recurrenceAnchor = some anchor := by
  cases wrote with
  | created command ok =>
    obtain ⟨-,-,-,fresh⟩ := createLink ok
    exact absurd (fresh series member) (ne_of_lt drawn)
  | @moved r u _ view move =>
    obtain ⟨member',head'⟩ := movedSeries chained drawn view move member head
    cases move with
    | updated command ok =>
      obtain ⟨row,there,link,-⟩ := viewRow view
      obtain ⟨-,-,key,-⟩ := viewSource view
      simp only [Work.taskId,command,Command.taskId,Option.some.injEq] at key
      subst key
      obtain ⟨ruled,anchored⟩ := Task.updateKeeps ok
        (keeps _ _ _ _ row rfl command there ((congrArg Link.seriesId link).trans member'))
      exact headed.bears view ⟨member.trans member'.symm,fun _ => head',ruled,anchored⟩ member head
    | completed _ ok => obtain ⟨-,rfl⟩ := Task.completeSource ok; exact headed.bears view ⟨rfl,id,rfl,rfl⟩ member head
    | cancelled _ ok => obtain ⟨-,rfl⟩ := Task.cancelSource ok; exact headed.bears view ⟨rfl,id,rfl,rfl⟩ member head
    | reopened _ ok => obtain ⟨-,rfl⟩ := Task.reopenSource ok; exact headed.bears view ⟨rfl,id,rfl,rfl⟩ member head
    | assigned _ ok => obtain ⟨-,rfl⟩ := Task.assignSource ok; exact headed.bears view ⟨rfl,id,rfl,rfl⟩ member head
    | unassigned _ ok => obtain ⟨-,rfl⟩ := Task.unassignSource ok; exact headed.bears view ⟨rfl,id,rfl,rfl⟩ member head
  | relinquished => cases head
  | succeeded view closed found _ =>
    obtain ⟨state,rfl⟩ := closed
    exact headed.bears view ⟨rfl,fun _ => successorDueSource found,rfl,rfl⟩ member head
  | reported view => exact headed.bears view ⟨rfl,id,rfl,rfl⟩ member head

theorem issuedLater : s.issued ≤ (writeLocked intl s w (readLocked s w)).2.issued := by
  cases w with
  | member r =>
    rw [memberWrite,handle]
    split <;> exact Nat.le_succ _
  | report r =>
    have did : Did intl s (.report r) _ _ := writeDid rfl
    simp only [writeLocked]
    cases reported : reportView intl s r (readLocked s (.report r)) with
    | error e => exact le_refl _
    | ok done =>
      obtain ⟨seen,-,reported⟩ := bindSource reported
      split at reported
      · cases reported
        exact le_refl _
      unfold reportLocked at reported
      obtain ⟨dueAt,-,reported⟩ := bindSource reported
      split at reported
      · cases reported
        exact le_refl _
      obtain ⟨needs,-,reported⟩ := bindSource reported
      split at reported
      · obtain ⟨marked,-,reported⟩ := bindSource reported
        obtain ⟨saved,kept,reported⟩ := bindSource reported
        cases reported
        exact le_of_eq (Store.saveSource kept).2.2.2.symm
      · cases reported
        exact le_refl _

theorem workGoing (going : Going intl s series rule anchor) (wired : w.Wired intl)
    (keeps : ∀ r id version patch row, w = .member r → r.command = .updateTask id version patch →
      s.tasks.find id = some row → row.seriesId = some series → patch.recurrenceRule = none) :
    Going intl (writeLocked intl s w (readLocked s w)).2 series rule anchor := by
  refine ⟨workStanding going.standing,workShaped going.shaped wired,going.ruled,going.based,
    lt_of_lt_of_le going.drawn issuedLater,?_⟩
  intro id row there member head
  rcases workRows id row there with old | ⟨t,wrote,-,made⟩
  · exact going.headed id row old member head
  obtain ⟨sameSeries,sameHead⟩ := columnsLink made
  obtain ⟨ruled,anchored⟩ := wroteHeaded going.standing.chained going.drawn going.headed wrote keeps
    (sameSeries.symm.trans member) (sameHead.symm.trans head)
  refine ⟨?_,fun found stored => ruleAgain going.ruled ruled made stored⟩
  obtain ⟨_,_,_,anchor',-,-,-,converted,columns_⟩ := columnsSource made
  rcases convertSource converted with ⟨none_,-⟩ | ⟨reading,stored,some_,db,rfl⟩
  · cases anchored.symm.trans none_
  obtain rfl := Option.some.inj (anchored.symm.trans some_)
  rw [congrArg TaskColumns.recurrenceAnchor columns_]
  exact congrArg some (localDateTimeToDbLate going.based.day.real going.based.year going.based.clock db)

theorem serialGoing {last : Store} {log : List Commit} (serial : RowLock.Serial (works intl) s log last)
    (wired : ∀ e ∈ log, e.request.Wired intl) (keeps : ∀ e ∈ log, e.KeepsRule series)
    (going : Going intl s series rule anchor) : ∀ e ∈ log, Going intl e.before series rule anchor := by
  induction serial with
  | nil => simp
  | @cons e rest last view made later ih =>
    have next := workGoing going (wired e List.mem_cons_self) (keeps e List.mem_cons_self)
    rw [show readLocked e.before e.request = e.view from view.symm,
      show writeLocked intl e.before e.request e.view = (e.outcome,e.after) from made] at next
    have others := ih (fun d mem => wired d (List.mem_cons_of_mem e mem))
      (fun d mem => keeps d (List.mem_cons_of_mem e mem)) next
    exact List.forall_mem_cons.mpr ⟨going,others⟩

theorem headGoing (standing : s.Standing intl) (shaped : StoreShaped s) (found : HeadOf s h series rule anchor) :
    Going intl s series rule anchor := by
  obtain ⟨⟨familyId,locked⟩,head,member,ruled,anchored⟩ := found
  obtain ⟨row,there,link,loaded⟩ := lockRow locked
  have linked : h.link ∈ s.links := link ▸ List.mem_map_of_mem (Table.findSource there).1
  have stored : storedRule row = .ok (some rule) := loaded.rule.trans (congrArg Except.ok ruled)
  have based := (loadedStored (shaped h.id row there) loaded).anchor anchor anchored
  refine ⟨standing,shaped,ruleExact stored,based,standing.chained.drawn _ linked _ member,?_⟩
  intro id other there' member' head'
  have same := standing.chained.oneHead (List.mem_map_of_mem (Table.findSource there').1) linked member' member head' head
  have own : other.id = h.id := congrArg Link.id same
  obtain ⟨-,key⟩ := Table.findSource there'
  obtain rfl := Option.some.inj ((key.symm.trans own ▸ there').symm.trans there)
  refine ⟨loaded.anchor.symm.trans anchored,fun rule' is => ?_⟩
  rw [stored] at is
  exact (Except.ok.inj is).symm

theorem runBefore {moves : List (RowLock.Move Work)} (wired : ∀ w, .begin w ∈ moves → w.Wired intl)
    {last : RowLock.Config Store Work View WorkOutcome}
    (ran : RowLock.run (works intl) (RowLock.begins Store.empty) moves = some last) {earlier later : List Commit}
    {d : Commit} (split_ : last.log = earlier ++ d :: later) : d.before.Standing intl ∧ StoreShaped d.before ∧
      RowLock.Serial (works intl) d.before (d :: later) last.store ∧ ∀ e ∈ d :: later, e.request.Wired intl := by
  obtain ⟨serial,requests⟩ := RowLock.runSerial worksFramed wired ran
  rw [split_] at serial requests
  obtain ⟨front,view,made,back⟩ := serial.behind
  have step : ∀ e : Commit, e.view = readLocked e.before e.request →
      writeLocked intl e.before e.request e.view = (e.outcome,e.after) → e.request.Wired intl →
      e.before.Standing intl ∧ StoreShaped e.before → (e.after.Standing intl ∧ StoreShaped e.after) ∧ True := by
    intro e read made wired good
    have kept := workStanding (w := e.request) good.1
    have shaped := workShaped good.2 wired
    rw [← read,made] at kept shaped
    exact ⟨⟨kept,shaped⟩,trivial⟩
  obtain ⟨standing,shaped⟩ := (front.keeps (fun s => s.Standing intl ∧ StoreShaped s) (fun _ => True)
    (Work.Wired intl) step (fun e mem => requests e (List.mem_append_left _ mem))
    ⟨emptyStanding,fun id row found => by cases found⟩).1
  exact ⟨standing,shaped,.cons view made back,fun e mem => requests e (List.mem_append_right _ mem)⟩

theorem handingSource {e : Commit} {head successor : Task} {now : Instant} (computed : Computed intl e)
    (handing : e.handing = some (head,now,successor)) : ∃ closed due member familyId,
      readLocked e.before e.request = .ok (some head) ∧ Closes head closed ∧
      successorDueOf intl closed now = some (.ok (some due)) ∧
      successor = Task.successorOf e.before.issued closed due member ∧
      Store.Changed intl e.before e.after closed.relinquishHead ∧
      Store.Placed intl e.before e.after familyId successor := by
  unfold Commit.handing at handing
  split at handing
  · rename_i r head' reply successor' request locked outcome
    cases handing
    have did := computedDid computed
    have written := computed.2
    rw [computed.1] at written
    rw [request,outcome] at did written
    rw [request] at locked
    cases did with
    | worked _ view _ effect =>
      obtain rfl := Option.some.inj (Except.ok.inj (view.symm.trans locked))
      cases effect with
      | @handed closed due _ move found changed placed rows =>
        have closes := movedCloses move (writtenCloses (congrArg Prod.fst written) (by simp))
        exact ⟨closed,due,_,_,request ▸ view,closes,found,rfl,changed,placed⟩
    | refused no => exact absurd rfl (no _)
  · cases handing

end
end FamilyPlatform.Tasks
