import Mathlib.Data.List.Nodup
import FamilyPlatform.Lib.Interleaving
import FamilyPlatform.Relay.Outbox

/-! No event is lost: whatever is marked published has reached each of its queues, in any
interleaving of ticks, failing sends, crashes and rollbacks. -/
namespace FamilyPlatform.Relay
open Interleaving (setCases)

variable {Payload : Type} {topology : List QueueDefinition}

def Sent (topology : List QueueDefinition) (messages : List (MessageToPublish Payload))
    (event : ClaimedOutboxEvent Payload) : Prop :=
  ∀ queue ∈ resolveDestinations event.eventType topology, messageFor event queue ∈ messages

structure TickFits (topology : List QueueDefinition) (messages : List (MessageToPublish Payload)) (t : Tick Payload) :
    Prop where
  distinct : t.ids.Nodup
  split : ∃ before, t.claimed = before ++ t.todo ∧
    (t.finished ++ t.failed).Perm (before.map ClaimedOutboxEvent.id)
  finished : ∀ event ∈ t.claimed, event.id ∈ t.finished → Sent topology messages event
  current : ∀ event rest, t.todo = event :: rest → ∃ sentTo,
    resolveDestinations event.eventType topology = sentTo ++ t.destinations ∧
      ∀ queue ∈ sentTo, messageFor event queue ∈ messages

def unpublished (event : ClaimedOutboxEvent Payload) : OutboxRow Payload := { event with publishedAt := none }

structure Fits (topology : List QueueDefinition) (c : State Payload) : Prop where
  delivered : ∀ row ∈ c.rows.rows, row.publishedAt ≠ none → Sent topology c.messages row.toClaimedOutboxEvent
  ticks : ∀ t ∈ c.ticks, TickFits topology c.messages t
  held : ∀ t ∈ c.ticks, t.isOpen = true → ∀ event ∈ t.claimed, c.rows.find event.id = some (unpublished event)
  exclusive : ∀ (i j : Nat) (t u : Tick Payload), c.ticks[i]? = some t → c.ticks[j]? = some u → t.isOpen = true →
    u.isOpen = true → ∀ id ∈ t.ids, id ∈ u.ids → i = j

theorem Sent.more {messages more : List (MessageToPublish Payload)} {event : ClaimedOutboxEvent Payload}
    (sent : Sent topology messages event) : Sent topology (messages ++ more) event :=
  fun queue mem => List.mem_append_left _ (sent queue mem)

theorem TickFits.more {messages more : List (MessageToPublish Payload)} {t : Tick Payload}
    (fits : TickFits topology messages t) : TickFits topology (messages ++ more) t := by
  refine ⟨fits.distinct,fits.split,fun event mem done => (fits.finished event mem done).more,fun event rest is => ?_⟩
  obtain ⟨sentTo,all,there⟩ := fits.current event rest is
  exact ⟨sentTo,all,fun queue mem => List.mem_append_left _ (there queue mem)⟩

section
variable {messages more : List (MessageToPublish Payload)} {t next : Tick Payload}

theorem currentUpcoming (todo : List (ClaimedOutboxEvent Payload)) (event : ClaimedOutboxEvent Payload)
    (rest : List (ClaimedOutboxEvent Payload)) (is : todo = event :: rest) : ∃ sentTo,
      resolveDestinations event.eventType topology = sentTo ++ upcoming topology todo ∧
        ∀ queue ∈ sentTo, messageFor event queue ∈ messages := by
  subst is
  exact ⟨[],rfl,by simp⟩

theorem TickFits.claiming {claimed : List (ClaimedOutboxEvent Payload)}
    (distinct : (claimed.map ClaimedOutboxEvent.id).Nodup) : TickFits topology messages (.claiming topology claimed) :=
  ⟨distinct,⟨[],rfl,.nil⟩,by simp [Tick.claiming],fun event rest is => currentUpcoming claimed event rest is⟩

theorem TickFits.send {outcome : CallOutcome} (fits : TickFits topology messages t)
    (sent : t.send topology outcome = some (next,more)) : TickFits topology (messages ++ more) next ∧
      next.claimed = t.claimed ∧ next.isOpen = t.isOpen := by
  unfold Tick.send at sent
  split at sent
  · rename_i event rest queue others phase todo destinations
    obtain ⟨before,all,perm⟩ := fits.split
    have failing : ∀ more, TickFits topology (messages ++ more)
        { t with todo := rest, destinations := upcoming topology rest, failed := t.failed ++ [event.id] } := by
      intro more
      refine ⟨fits.distinct,⟨before ++ [event],by rw [all,todo]; simp,?_⟩,fun e mem done => (fits.finished e mem done).more,
        currentUpcoming rest⟩
      rw [← List.append_assoc,List.map_append]
      exact perm.append_right _
    cases outcome with
    | acknowledged =>
      cases sent
      refine ⟨⟨fits.distinct,⟨before,all,perm⟩,fun e mem done => (fits.finished e mem done).more,?_⟩,rfl,rfl⟩
      intro e rest' is
      obtain ⟨sentTo,whole,there⟩ := fits.current e rest' is
      obtain ⟨rfl,rfl⟩ := List.cons.inj (is.symm.trans todo)
      refine ⟨sentTo ++ [queue],by rw [whole,destinations]; simp,fun q mem => ?_⟩
      rcases List.mem_append.mp mem with old | new
      · exact List.mem_append_left _ (there q old)
      · rw [List.mem_singleton.mp new]
        exact List.mem_append_right _ List.mem_cons_self
    | unacknowledged =>
      cases sent
      exact ⟨failing _,rfl,rfl⟩
    | refused =>
      cases sent
      exact ⟨failing _,rfl,rfl⟩
  · cases sent

theorem TickFits.finish (fits : TickFits topology messages t) (done : t.finish topology = some next) :
    TickFits topology messages next ∧ next.claimed = t.claimed ∧ next.isOpen = t.isOpen := by
  unfold Tick.finish at done
  split at done
  · rename_i event rest phase todo destinations
    cases done
    obtain ⟨before,all,perm⟩ := fits.split
    refine ⟨⟨fits.distinct,⟨before ++ [event],by rw [all,todo]; simp,?_⟩,fun e mem done => ?_,currentUpcoming rest⟩,rfl,rfl⟩
    · have moved : (t.finished ++ [event.id] ++ t.failed).Perm (t.finished ++ t.failed ++ [event.id]) := by
        rw [List.append_assoc,List.append_assoc]
        exact List.perm_append_comm.append_left _
      rw [List.map_append]
      exact moved.trans (perm.append_right _)
    · rcases List.mem_append.mp done with old | new
      · exact fits.finished e mem old
      · -- The event itself, of which no destination is left.
        have same : e.id = event.id := List.mem_singleton.mp new
        obtain rfl : e = event := List.inj_on_of_nodup_map fits.distinct mem (by rw [all,todo]; simp) same
        obtain ⟨sentTo,whole,there⟩ := fits.current e rest todo
        rw [destinations,List.append_nil] at whole
        exact fun queue mem => there queue (whole ▸ mem)
  · cases done

theorem TickFits.mark {now : Instant} (fits : TickFits topology messages t) (marked : t.mark now = some next) :
    TickFits topology messages next ∧ next.claimed = t.claimed ∧ next.isOpen = t.isOpen := by
  unfold Tick.mark at marked
  split at marked
  · cases marked
    exact ⟨⟨fits.distinct,fits.split,fits.finished,fits.current⟩,rfl,rfl⟩
  · cases marked

end

section
variable {c next : State Payload} {i : Nat} {t u : Tick Payload} {messages : List (MessageToPublish Payload)}

theorem Fits.set (messages : List (MessageToPublish Payload)) (fits : Fits topology c) (found : c.ticks[i]? = some t)
    (same : u.claimed = t.claimed) (opened : u.isOpen = true → t.isOpen = true) (tick : TickFits topology (c.messages ++ messages) u) :
    Fits topology { c with messages := c.messages ++ messages, ticks := c.ticks.set i u } := by
  have mem := List.mem_of_getElem? found
  have ids : u.ids = t.ids := congrArg (List.map ClaimedOutboxEvent.id) same
  refine ⟨fun row there published => (fits.delivered row there published).more,?_,?_,?_⟩
  · intro v there
    rcases List.mem_or_eq_of_mem_set there with old | rfl
    · exact (fits.ticks v old).more
    · exact tick
  · intro v there open_ event claimed
    rcases List.mem_or_eq_of_mem_set there with old | rfl
    · exact fits.held v old open_ event claimed
    · exact fits.held t mem (opened open_) event (same ▸ claimed)
  · -- Whichever of the two is the tick that went on, it was there before with the same rows.
    have before : ∀ {j : Nat} {v : Tick Payload}, (c.ticks.set i u)[j]? = some v → v.isOpen = true →
        ∃ w, c.ticks[j]? = some w ∧ w.isOpen = true ∧ v.ids = w.ids := by
      intro j v there open_
      rcases setCases there with ⟨rfl,rfl⟩ | ⟨-,old⟩
      · exact ⟨t,found,opened open_,ids⟩
      · exact ⟨v,old,open_,rfl⟩
    intro j k v w thereV thereW openV openW id memV memW
    obtain ⟨v',oldV,openV',idsV⟩ := before thereV openV
    obtain ⟨w',oldW,openW',idsW⟩ := before thereW openW
    exact fits.exclusive j k v' w' oldV oldW openV' openW' id (idsV ▸ memV) (idsW ▸ memW)

theorem Fits.setSilent (fits : Fits topology c) (found : c.ticks[i]? = some t) (same : u.claimed = t.claimed)
    (opened : u.isOpen = true → t.isOpen = true) (tick : TickFits topology c.messages u) :
    Fits topology { c with ticks := c.ticks.set i u } := by
  have kept := fits.set [] found same opened (by rw [List.append_nil]; exact tick)
  rwa [List.append_nil] at kept

theorem memClaim {passedOver : List EventId} {event : ClaimedOutboxEvent Payload}
    (mem : event ∈ claimUnpublished c passedOver) : c.rows.find event.id = some (unpublished event) ∧
      event.id ∉ locked c.ticks := by
  obtain ⟨row,there,rfl⟩ := List.mem_map.mp mem
  have source := List.mem_filter.mp ((List.mem_insertionSort _).mp (List.mem_of_mem_take there))
  simp only [Bool.and_eq_true,Option.isNone_iff_eq_none,decide_eq_true_eq] at source
  obtain ⟨mem,⟨none_,free⟩,-⟩ := source
  refine ⟨?_,free⟩
  rw [show c.rows.find row.id = some row from Table.findMember mem]
  obtain ⟨event,publishedAt⟩ := row
  simp only at none_
  rw [none_]
  rfl

theorem claimDistinct (c : State Payload) (passedOver : List EventId) :
    ((claimUnpublished c passedOver).map ClaimedOutboxEvent.id).Nodup := by
  have rows : ((c.rows.rows.filter (fun row => row.publishedAt.isNone && row.id ∉ locked c.ticks && row.id ∉ passedOver)).map
      (fun row => row.id)).Nodup := c.rows.distinct.sublist (List.filter_sublist.map _)
  have sorted := ((List.perm_insertionSort (fun a b : OutboxRow Payload => a.occurredAt ≤ b.occurredAt) _).map
    (fun row => row.id)).nodup_iff.mpr rows
  rw [claimUnpublished,List.map_map]
  exact sorted.sublist ((List.take_sublist _ _).map _)

theorem Fits.claim (fits : Fits topology c) (passedOver : List EventId) :
    Fits topology { c with ticks := c.ticks ++ [.claiming topology (claimUnpublished c passedOver)] } := by
  have opened : ∀ {j : Nat} {v : Tick Payload}, c.ticks[j]? = some v → v.isOpen = true → ∀ id ∈ v.ids,
      id ∈ locked c.ticks := fun there open_ id mem =>
    List.mem_flatMap.mpr ⟨_,List.mem_filter.mpr ⟨List.mem_of_getElem? there,open_⟩,mem⟩
  have cases_ : ∀ {j : Nat} {v : Tick Payload},
      (c.ticks ++ [Tick.claiming topology (claimUnpublished c passedOver)])[j]? = some v →
      c.ticks[j]? = some v ∨ (j = c.ticks.length ∧ v.ids = (claimUnpublished c passedOver).map ClaimedOutboxEvent.id) := by
    intro j v there
    rcases Nat.lt_or_ge j c.ticks.length with lt | ge
    · exact .inl (by rwa [List.getElem?_append_left lt] at there)
    · rw [List.getElem?_append_right ge,List.getElem?_singleton] at there
      split at there
      · cases there
        exact .inr ⟨by omega,rfl⟩
      · cases there
  have claimed : ∀ id ∈ (claimUnpublished c passedOver).map ClaimedOutboxEvent.id, id ∉ locked c.ticks := by
    intro id mem
    obtain ⟨event,there,rfl⟩ := List.mem_map.mp mem
    exact (memClaim there).2
  refine ⟨fits.delivered,?_,?_,?_⟩
  · intro v there
    rcases List.mem_append.mp there with old | new
    · exact fits.ticks v old
    · rw [List.mem_singleton.mp new]
      exact .claiming (claimDistinct c passedOver)
  · intro v there open_ event mem
    rcases List.mem_append.mp there with old | new
    · exact fits.held v old open_ event mem
    · rw [List.mem_singleton.mp new] at mem
      exact (memClaim mem).1
  · intro j k v w thereV thereW openV openW id memV memW
    rcases cases_ thereV with oldV | ⟨rfl,newV⟩
    · rcases cases_ thereW with oldW | ⟨rfl,newW⟩
      · exact fits.exclusive j k v w oldV oldW openV openW id memV memW
      · exact absurd (opened oldV openV id memV) (claimed id (newW ▸ memW))
    · rcases cases_ thereW with oldW | ⟨rfl,-⟩
      · exact absurd (opened oldW openW id memW) (claimed id (newV ▸ memV))
      · rfl

theorem Fits.append {event : ClaimedOutboxEvent Payload} {rows : Table (OutboxRow Payload) (fun row => row.id)}
    (fits : Fits topology c) (inserted : c.rows.insert (unpublished event) = some rows) :
    Fits topology { c with rows := rows } := by
  obtain ⟨all,fresh⟩ := Table.insertRows inserted
  refine ⟨fun row mem published => ?_,fits.ticks,fun t mem open_ e claimed => ?_,fits.exclusive⟩
  · rw [all] at mem
    rcases List.mem_append.mp mem with old | new
    · exact fits.delivered row old published
    · rw [List.mem_singleton.mp new] at published
      exact absurd rfl published
  · have there := fits.held t mem open_ e claimed
    have source := Table.findSource there
    rw [Table.findInsert inserted,if_neg (fun same => fresh _ source.1 (source.2.trans same))]
    exact there

theorem TickFits.finishedIds (fits : TickFits topology messages t) {id : EventId} (mem : id ∈ t.finished) :
    ∃ event ∈ t.claimed, event.id = id := by
  obtain ⟨before,all,perm⟩ := fits.split
  obtain ⟨event,there,same⟩ := List.mem_map.mp (perm.mem_iff.mp (List.mem_append_left _ mem))
  exact ⟨event,all ▸ List.mem_append_left _ there,same⟩

theorem TickFits.failedIds (fits : TickFits topology messages t) {id : EventId} (mem : id ∈ t.failed) :
    (∃ event ∈ t.claimed, event.id = id) ∧ id ∉ t.finished := by
  obtain ⟨before,all,perm⟩ := fits.split
  obtain ⟨event,there,same⟩ := List.mem_map.mp (perm.mem_iff.mp (List.mem_append_right _ mem))
  have distinct := fits.distinct
  rw [Tick.ids,all,List.map_append] at distinct
  have apart := perm.nodup_iff.mpr (List.nodup_append.mp distinct).1
  exact ⟨⟨event,all ▸ List.mem_append_left _ there,same⟩,
    fun done => (List.nodup_append.mp apart).2.2 id done id mem rfl⟩

theorem findMark (rows : Table (OutboxRow Payload) (fun row => row.id)) (ids : List EventId) (now : Instant)
    (id : EventId) : (markOutboxEventsPublished rows ids now).find id =
      (rows.find id).map (fun row => if id ∈ ids then { row with publishedAt := some now } else row) := by
  rw [markOutboxEventsPublished,Table.findUpdateWhere]
  cases found : rows.find id with
  | none => rfl
  | some row =>
    obtain rfl : row.id = id := (Table.findSource found).2
    simp only [Option.map_some,decide_eq_true_eq]

theorem Fits.commit {now : Instant} (fits : Fits topology c) (found : c.ticks[i]? = some t) (open_ : t.isOpen = true) :
    Fits topology { c with rows := markOutboxEventsPublished c.rows t.finished now,
                           ticks := c.ticks.set i { t with phase := .over, isOpen := false } } := by
  have mem := List.mem_of_getElem? found
  have tick := fits.ticks t mem
  have closed : Fits topology { c with ticks := c.ticks.set i { t with phase := .over, isOpen := false } } :=
    fits.setSilent found rfl (fun is => by cases is) ⟨tick.distinct,tick.split,tick.finished,tick.current⟩
  refine ⟨fun row there published => ?_,closed.ticks,fun v there openV event claimed => ?_,closed.exclusive⟩
  · have marked := Table.findMember there
    rw [findMark] at marked
    obtain ⟨row₀,old,is⟩ := Option.map_eq_some_iff.mp marked
    by_cases done : row.id ∈ t.finished
    · rw [if_pos done] at is
      obtain ⟨event,claimed,same⟩ := tick.finishedIds done
      have held := fits.held t mem open_ event claimed
      rw [same,old] at held
      obtain rfl := Option.some.inj held
      rw [← is]
      exact tick.finished event claimed (same ▸ done)
    · rw [if_neg done] at is
      subst is
      exact fits.delivered row₀ (Table.findSource old).1 published
  · have held := closed.held v there openV event claimed
    rw [findMark,held,Option.map_some,if_neg]
    intro done
    obtain ⟨event',claimed',same⟩ := tick.finishedIds done
    obtain ⟨j,there⟩ := List.mem_iff_getElem?.mp there
    rcases setCases there with ⟨-,rfl⟩ | ⟨apart,old⟩
    · cases openV
    · exact apart (fits.exclusive i j t v found old open_ openV event.id (List.mem_map.mpr ⟨event',claimed',same⟩)
        (List.mem_map_of_mem claimed)).symm

theorem moveFits {m : Move Payload} (fits : Fits topology c) (moved : move topology c m = some next) :
    Fits topology next := by
  cases m <;> simp only [move,bind,Option.bind_eq_some_iff] at moved
  case append event =>
    obtain ⟨rows,inserted,rfl⟩ := by simpa using moved
    exact fits.append inserted
  case claim passedOver =>
    cases moved
    exact fits.claim passedOver
  case send tick outcome =>
    obtain ⟨t,found,⟨u,messages⟩,sent,moved⟩ := moved
    cases moved
    obtain ⟨kept,same,opened⟩ := (fits.ticks t (List.mem_of_getElem? found)).send sent
    exact fits.set _ found same (fun is => opened ▸ is) kept
  case finish tick =>
    obtain ⟨t,found,u,done,moved⟩ := moved
    cases moved
    obtain ⟨kept,same,opened⟩ := (fits.ticks t (List.mem_of_getElem? found)).finish done
    exact fits.setSilent found same (fun is => opened ▸ is) kept
  case mark tick now =>
    obtain ⟨t,found,u,marked,moved⟩ := moved
    cases moved
    obtain ⟨kept,same,opened⟩ := (fits.ticks t (List.mem_of_getElem? found)).mark marked
    exact fits.setSilent found same (fun is => opened ▸ is) kept
  case commit tick =>
    obtain ⟨t,found,moved⟩ := moved
    split at moved
    · rename_i open_
      cases moved
      exact fits.commit found open_
    · cases moved
  case rollback tick =>
    obtain ⟨t,found,moved⟩ := moved
    split at moved
    · cases moved
      have kept := fits.ticks t (List.mem_of_getElem? found)
      exact fits.setSilent found rfl (fun is => by cases is) ⟨kept.distinct,kept.split,kept.finished,kept.current⟩
    · cases moved
  case crash tick =>
    obtain ⟨t,found,moved⟩ := moved
    split at moved
    · cases moved
    · cases moved
      have kept := fits.ticks t (List.mem_of_getElem? found)
      exact fits.setSilent found rfl (fun is => by cases is) ⟨kept.distinct,kept.split,kept.finished,kept.current⟩

theorem runFits {moves : List (Move Payload)} {last : State Payload} (fits : Fits topology c)
    (ran : run topology c moves = some last) : Fits topology last := by
  induction moves generalizing c with
  | nil =>
    cases ran
    exact fits
  | cons m rest ih =>
    obtain ⟨next,moved,ran⟩ := Option.bind_eq_some_iff.mp ran
    exact ih (moveFits fits moved) ran

structure Publishes (topology : List QueueDefinition) (c next : State Payload) (m : Move Payload) : Prop where
  stays : ∀ id row, c.rows.find id = some row → row.publishedAt ≠ none → next.rows.find id = some row
  only : ∀ id row, c.rows.find id = some row → row.publishedAt = none → next.rows.find id = some row ∨
    ∃ tick t now, m = .commit tick ∧ c.ticks[tick]? = some t ∧ t.phase = .marked now ∧ id ∈ t.finished ∧
      Sent topology c.messages row.toClaimedOutboxEvent ∧ next.rows.find id = some { row with publishedAt := some now }
  failed : ∀ tick t, c.ticks[tick]? = some t → m = .commit tick → ∀ id ∈ t.failed,
    ∃ row, next.rows.find id = some row ∧ row.publishedAt = none
  undone : ∀ tick t, c.ticks[tick]? = some t → t.isOpen = true → m = .rollback tick ∨ m = .crash tick → ∀ id ∈ t.ids,
    ∃ row, next.rows.find id = some row ∧ row.publishedAt = none
  collected : ∀ tick t outcome event rest, c.ticks[tick]? = some t → t.todo = event :: rest →
    m = .send tick outcome → outcome ≠ .acknowledged → ∃ u, next.ticks[tick]? = some u ∧ event.id ∈ u.failed

inductive RowsMove (c : State Payload) : Move Payload → Table (OutboxRow Payload) (fun row => row.id) → Prop where
  | same {m} (other : ∀ tick, m ≠ .commit tick) : RowsMove c m c.rows
  | appended {event rows} (inserted : c.rows.insert (unpublished event) = some rows) : RowsMove c (.append event) rows
  | committed {tick t now} (found : c.ticks[tick]? = some t) (phase : t.phase = .marked now) (open_ : t.isOpen = true) :
      RowsMove c (.commit tick) (markOutboxEventsPublished c.rows t.finished now)

theorem moveRows {m : Move Payload} (moved : move topology c m = some next) : RowsMove c m next.rows := by
  cases m <;> simp only [move,bind,Option.bind_eq_some_iff] at moved
  case append event =>
    obtain ⟨rows,inserted,rfl⟩ := by simpa using moved
    exact .appended inserted
  case claim passedOver =>
    cases moved
    exact .same (by simp)
  case commit tick =>
    obtain ⟨t,found,moved⟩ := moved
    split at moved
    · rename_i now phase open_
      cases moved
      exact .committed found phase open_
    · cases moved
  case rollback tick =>
    obtain ⟨t,found,moved⟩ := moved
    split at moved <;> cases moved
    exact .same (by simp)
  case crash tick =>
    obtain ⟨t,found,moved⟩ := moved
    split at moved <;> cases moved
    exact .same (by simp)
  all_goals
    obtain ⟨t,found,u,done,moved⟩ := moved
    cases moved
    exact .same (by simp)

theorem sendCollects {outcome : CallOutcome} {event : ClaimedOutboxEvent Payload}
    {rest : List (ClaimedOutboxEvent Payload)} (todo : t.todo = event :: rest)
    (sent : t.send topology outcome = some (u,messages)) (failing : outcome ≠ .acknowledged) : event.id ∈ u.failed := by
  unfold Tick.send at sent
  split at sent
  · rename_i is _
    obtain ⟨rfl,-⟩ := List.cons.inj (todo.symm.trans is)
    cases outcome with
    | acknowledged => exact absurd rfl failing
    | unacknowledged => cases sent; simp
    | refused => cases sent; simp
  · cases sent

omit topology in
theorem appendedOther {event : ClaimedOutboxEvent Payload} {rows : Table (OutboxRow Payload) (fun row => row.id)}
    {id : EventId} {row : OutboxRow Payload} (inserted : c.rows.insert (unpublished event) = some rows)
    (there : c.rows.find id = some row) : rows.find id = some row := by
  have source := Table.findSource there
  rw [Table.findInsert inserted,if_neg (fun same => (Table.insertRows inserted).2 _ source.1 (source.2.trans same))]
  exact there

section
variable {tick : Nat} {id : EventId} (fits : Fits topology c) (found : c.ticks[tick]? = some t)
  (open_ : t.isOpen = true)
include fits found open_

theorem claimedHeld (mem : id ∈ t.ids) : ∃ event ∈ t.claimed, event.id = id ∧
    c.rows.find id = some (unpublished event) := by
  obtain ⟨event,claimed,rfl⟩ := List.mem_map.mp mem
  exact ⟨event,claimed,rfl,fits.held t (List.mem_of_getElem? found) open_ event claimed⟩

theorem finishedHeld (done : id ∈ t.finished) :
    ∃ event, c.rows.find id = some (unpublished event) ∧ Sent topology c.messages event := by
  have tick := fits.ticks t (List.mem_of_getElem? found)
  obtain ⟨event,claimed,rfl⟩ := tick.finishedIds done
  exact ⟨event,fits.held t (List.mem_of_getElem? found) open_ event claimed,tick.finished event claimed done⟩

end

section
variable {m : Move Payload} {rows : Table (OutboxRow Payload) (fun row => row.id)} {id : EventId}
  {row : OutboxRow Payload} (fits : Fits topology c) (moved : RowsMove c m rows)
include fits moved

theorem publishedStays (there : c.rows.find id = some row) (published : row.publishedAt ≠ none) :
    rows.find id = some row := by
  cases moved with
  | same => exact there
  | appended inserted => exact appendedOther inserted there
  | committed found phase open_ =>
    rw [findMark,there,Option.map_some,if_neg]
    intro done
    obtain ⟨event,there',-⟩ := finishedHeld fits found open_ done
    rw [Option.some.inj (there.symm.trans there')] at published
    exact published rfl

theorem publishedOnly (there : c.rows.find id = some row) : rows.find id = some row ∨
    ∃ tick t now, m = .commit tick ∧ c.ticks[tick]? = some t ∧ t.phase = .marked now ∧ id ∈ t.finished ∧
      Sent topology c.messages row.toClaimedOutboxEvent ∧ rows.find id = some { row with publishedAt := some now } := by
  cases moved with
  | same => exact .inl there
  | appended inserted => exact .inl (appendedOther inserted there)
  | @committed tick t now found phase open_ =>
    by_cases done : id ∈ t.finished
    · obtain ⟨event,there',sent⟩ := finishedHeld fits found open_ done
      obtain rfl := Option.some.inj (there.symm.trans there')
      refine .inr ⟨tick,t,now,rfl,found,phase,done,sent,?_⟩
      rw [findMark,there,Option.map_some,if_pos done]
    · refine .inl ?_
      rw [findMark,there,Option.map_some,if_neg done]

theorem failedUnpublished {tick : Nat} (found : c.ticks[tick]? = some t) (is : m = .commit tick) (mem : id ∈ t.failed) :
    ∃ row, rows.find id = some row ∧ row.publishedAt = none := by
  obtain ⟨⟨event,claimed,rfl⟩,apart⟩ := (fits.ticks t (List.mem_of_getElem? found)).failedIds mem
  subst is
  cases moved with
  | same other => exact absurd rfl (other tick)
  | @committed _ u now found' phase open_ =>
    obtain rfl := Option.some.inj (found.symm.trans found')
    refine ⟨unpublished event,?_,rfl⟩
    rw [findMark,fits.held t (List.mem_of_getElem? found) open_ event claimed,Option.map_some,if_neg apart]

theorem undoneUnpublished {tick : Nat} (found : c.ticks[tick]? = some t) (open_ : t.isOpen = true)
    (which : m = .rollback tick ∨ m = .crash tick) (mem : id ∈ t.ids) :
    ∃ row, rows.find id = some row ∧ row.publishedAt = none := by
  obtain ⟨event,-,-,there⟩ := claimedHeld fits found open_ mem
  cases moved with
  | same => exact ⟨_,there,rfl⟩
  | appended => rcases which with is | is <;> cases is
  | committed => rcases which with is | is <;> cases is

end

theorem publishes {m : Move Payload} (fits : Fits topology c) (moved : move topology c m = some next) :
    Publishes topology c next m where
  stays _ _ there published := publishedStays fits (moveRows moved) there published
  only _ _ there _ := publishedOnly fits (moveRows moved) there
  failed _ _ found is _ mem := failedUnpublished fits (moveRows moved) found is mem
  undone _ _ found open_ which _ mem := undoneUnpublished fits (moveRows moved) found open_ which mem
  collected tick t outcome event rest found todo is failing := by
    subst is
    simp only [move,bind,Option.bind_eq_some_iff] at moved
    obtain ⟨t',found',⟨u,messages⟩,sent,moved⟩ := moved
    obtain rfl := Option.some.inj (found.symm.trans found')
    cases moved
    refine ⟨u,?_,sendCollects todo sent failing⟩
    rw [List.getElem?_set_self',found]
    rfl

/-- In every run, what is published was delivered, no row has two holders, and each step
publishes only what its tick has sent. -/
theorem runRelay (topology : List QueueDefinition) (moves : List (Move Payload)) (c : State Payload)
    (ran : run topology begins moves = some c) :
    (∀ row ∈ c.rows.rows, row.publishedAt ≠ none → Sent topology c.messages row.toClaimedOutboxEvent) ∧
    (∀ (i j : Nat) (t u : Tick Payload), c.ticks[i]? = some t → c.ticks[j]? = some u → t.isOpen = true →
      u.isOpen = true → ∀ id ∈ t.ids, id ∈ u.ids → i = j) ∧
    ∀ m next, move topology c m = some next → Publishes topology c next m := by
  have first : Fits topology (begins : State Payload) :=
    ⟨by simp [begins],by simp [begins],by simp [begins],by simp [begins]⟩
  have fits := runFits first ran
  exact ⟨fits.delivered,fits.exclusive,fun m next moved => publishes fits moved⟩

end
def pingMoves : List (Move Unit) :=
  [.append ⟨0,"relay.VerificationPing.v1","Ping","0",(),1000,"c"⟩,.claim [],.send 0 .refused,.mark 0 1001,.commit 0,
   .claim [],.claim [],.send 1 .acknowledged,.finish 1,.rollback 1,.claim [],.mark 1 1002,
   .send 3 .acknowledged,.finish 3,.mark 3 1003,.commit 3]

theorem pingRelayed : ∃ c : State Unit, c.rows.rows.map (fun row => row.publishedAt) = [some 1003] ∧
    c.messages.length = 2 ∧
    (∀ row ∈ c.rows.rows, row.publishedAt ≠ none → Sent queueTopology c.messages row.toClaimedOutboxEvent) ∧
    (∀ (i j : Nat) (t u : Tick Unit), c.ticks[i]? = some t → c.ticks[j]? = some u → t.isOpen = true →
      u.isOpen = true → ∀ id ∈ t.ids, id ∈ u.ids → i = j) ∧
    ∀ m next, move queueTopology c m = some next → Publishes queueTopology c next m := by
  have run : (run queueTopology begins pingMoves).map (fun c => (c.rows.rows.map (fun row => row.publishedAt),
      c.messages.length)) = some ([some 1003],2) := by decide +kernel
  obtain ⟨c,ran,published⟩ := Option.map_eq_some_iff.mp run
  obtain ⟨rows,messages⟩ := Prod.mk.inj published
  exact ⟨c,rows,messages,runRelay queueTopology pingMoves c ran⟩

end FamilyPlatform.Relay
