import FamilyPlatform.Calendar.Event

/-! What an edit of an event keeps, and what it keeps where it reports no change. -/
namespace FamilyPlatform.Calendar
open ZonedTime

namespace CalendarEvent

structure Edited (a : CalendarEvent) (edit : Edit) : Prop where
  id : edit.1.id = a.id
  status : edit.1.status = a.status
  materialisedThrough : edit.1.materialisedThrough = a.materialisedThrough
  createdByMemberId : edit.1.createdByMemberId = a.createdByMemberId
  createdAt : edit.1.createdAt = a.createdAt
  timing : .timing ∉ edit.2 → edit.1.timing = a.timing ∨ sameTiming edit.1.timing a.timing = true
  timeZone : .timing ∉ edit.2 → edit.1.timeZone = a.timeZone
  recurrenceRule : .recurrence ∉ edit.2 →
    edit.1.recurrenceRule.map RecurrenceRule.toText = a.recurrenceRule.map RecurrenceRule.toText
  participants : .participants ∉ edit.2 →
    edit.1.participants = a.participants ∨ sameMembers edit.1.participants a.participants = true

theorem noteOther {differs : Bool} {group other : ChangedFieldGroup} {changed : List ChangedFieldGroup}
    (absent : other ∉ noteChange differs group changed) : other ∉ changed := by
  unfold noteChange at absent
  split at absent
  · exact fun mem => absent (List.mem_append_left _ mem)
  · exact absent

theorem noteSame {differs : Bool} {group : ChangedFieldGroup} {changed : List ChangedFieldGroup}
    (absent : group ∉ noteChange differs group changed) : differs = false := by
  unfold noteChange at absent
  split at absent
  · exact absurd (List.mem_append_right _ (List.mem_singleton_self _)) absent
  · rename_i same
    by_contra is
    rw [Bool.not_eq_false] at is
    exact same (by simp [is,absent])

theorem Edited.details {a b : CalendarEvent} {edit : Edit} {differs : Bool} (edited : Edited a edit)
    (same : (b.id,b.status,b.materialisedThrough,b.createdByMemberId,b.createdAt,b.timing,b.timeZone) =
      (edit.1.id,edit.1.status,edit.1.materialisedThrough,edit.1.createdByMemberId,edit.1.createdAt,edit.1.timing,
        edit.1.timeZone))
    (rule : b.recurrenceRule = edit.1.recurrenceRule) (participants : b.participants = edit.1.participants) :
    Edited a (b,noteChange differs .details edit.2) := by
  simp only [Prod.mk.injEq] at same
  obtain ⟨id,status,through,creator,created,timing,timeZone⟩ := same
  exact ⟨id.trans edited.id,status.trans edited.status,through.trans edited.materialisedThrough,
    creator.trans edited.createdByMemberId,created.trans edited.createdAt,
    fun absent => timing ▸ edited.timing (noteOther absent),fun absent => timeZone ▸ edited.timeZone (noteOther absent),
    fun absent => rule ▸ edited.recurrenceRule (noteOther absent),
    fun absent => participants ▸ edited.participants (noteOther absent)⟩

section
variable {a : CalendarEvent} {edit edit' : Edit} {patch : EventPatch}

theorem titleEdited (edited : Edited a edit) (ok : updateTitle patch edit = .ok edit') : Edited a edit' := by
  unfold updateTitle at ok
  split at ok
  · cases ok
    exact edited
  · obtain ⟨title,-,ok⟩ := bindSource ok
    cases ok
    exact edited.details rfl rfl rfl

theorem detailsEdited (edited : Edited a edit) :
    Edited a (updateAttachments patch (updateCategory patch (updateLocation patch (updateDescription patch edit)))) := by
  have described : Edited a (updateDescription patch edit) := by
    unfold updateDescription
    split
    · exact edited
    · exact edited.details rfl rfl rfl
  have located : Edited a (updateLocation patch (updateDescription patch edit)) := by
    unfold updateLocation
    split
    · exact described
    · exact described.details rfl rfl rfl
  have categorised : Edited a (updateCategory patch (updateLocation patch (updateDescription patch edit))) :=
    located.details rfl rfl rfl
  exact categorised.details rfl rfl rfl

theorem titleUntouched (ok : updateTitle patch edit = .ok edit') : edit'.1.timing = edit.1.timing ∧
    edit'.1.timeZone = edit.1.timeZone ∧ edit'.1.recurrenceRule = edit.1.recurrenceRule ∧
      edit'.1.participants = edit.1.participants := by
  unfold updateTitle at ok
  split at ok
  · cases ok
    exact ⟨rfl,rfl,rfl,rfl⟩
  · obtain ⟨_,-,ok⟩ := bindSource ok
    cases ok
    exact ⟨rfl,rfl,rfl,rfl⟩

theorem timingUntouched (ok : updateTiming patch edit = .ok edit') : edit'.1.timeZone = edit.1.timeZone ∧
    edit'.1.recurrenceRule = edit.1.recurrenceRule ∧ edit'.1.participants = edit.1.participants := by
  unfold updateTiming at ok
  split at ok
  · cases ok
    exact ⟨rfl,rfl,rfl⟩
  · obtain ⟨_,-,ok⟩ := bindSource ok
    obtain ⟨_,-,ok⟩ := bindSource ok
    cases ok
    exact ⟨rfl,rfl,rfl⟩

theorem zoneUntouched {intl : Intl} (ok : updateTimeZone intl patch edit = .ok edit') :
    edit'.1.timing = edit.1.timing ∧ edit'.1.recurrenceRule = edit.1.recurrenceRule ∧
      edit'.1.participants = edit.1.participants := by
  unfold updateTimeZone at ok
  split at ok
  · cases ok
    exact ⟨rfl,rfl,rfl⟩
  · obtain ⟨_,-,ok⟩ := bindSource ok
    cases ok
    exact ⟨rfl,rfl,rfl⟩

theorem recurrenceUntouched (ok : updateRecurrence patch edit = .ok edit') :
    edit'.1.timing = edit.1.timing ∧ edit'.1.participants = edit.1.participants := by
  unfold updateRecurrence at ok
  split at ok
  · cases ok
    exact ⟨rfl,rfl⟩
  · obtain ⟨_,-,ok⟩ := bindSource ok
    cases ok
    exact ⟨rfl,rfl⟩

theorem participantsUntouched (edit : Edit) : (updateParticipants patch edit).1.timing = edit.1.timing ∧
    (updateParticipants patch edit).1.recurrenceRule = edit.1.recurrenceRule := by
  unfold updateParticipants
  split <;> exact ⟨rfl,rfl⟩

theorem detailsUntouched (edit : Edit) :
    let next := updateAttachments patch (updateCategory patch (updateLocation patch (updateDescription patch edit)))
    next.1.timing = edit.1.timing ∧ next.1.timeZone = edit.1.timeZone ∧
      next.1.recurrenceRule = edit.1.recurrenceRule ∧ next.1.participants = edit.1.participants := by
  generalize described : updateDescription patch edit = first
  generalize located : updateLocation patch first = second
  have same : first.1.timing = edit.1.timing ∧ first.1.timeZone = edit.1.timeZone ∧
      first.1.recurrenceRule = edit.1.recurrenceRule ∧ first.1.participants = edit.1.participants := by
    subst described
    unfold updateDescription
    split <;> exact ⟨rfl,rfl,rfl,rfl⟩
  subst located
  simp only [updateAttachments,updateCategory,updateLocation]
  split <;> exact same

theorem timingEdited (edited : Edited a edit) (untouched : edit.1.timing = a.timing)
    (ok : updateTiming patch edit = .ok edit') : Edited a edit' := by
  unfold updateTiming at ok
  split at ok
  · cases ok
    exact edited
  · obtain ⟨merged,-,ok⟩ := bindSource ok
    obtain ⟨timing,-,ok⟩ := bindSource ok
    cases ok
    refine ⟨edited.id,edited.status,edited.materialisedThrough,edited.createdByMemberId,edited.createdAt,
      fun absent => .inr ?_,fun absent => edited.timeZone (noteOther absent),
      fun absent => edited.recurrenceRule (noteOther absent),fun absent => edited.participants (noteOther absent)⟩
    have same := noteSame absent
    rw [Bool.not_eq_false'] at same
    exact untouched ▸ same

theorem zoneEdited {intl : Intl} (edited : Edited a edit) (untouched : edit.1.timeZone = a.timeZone)
    (ok : updateTimeZone intl patch edit = .ok edit') : Edited a edit' := by
  unfold updateTimeZone at ok
  split at ok
  · cases ok
    exact edited
  · obtain ⟨timeZone,-,ok⟩ := bindSource ok
    cases ok
    refine ⟨edited.id,edited.status,edited.materialisedThrough,edited.createdByMemberId,edited.createdAt,
      fun absent => edited.timing (noteOther absent),fun absent => ?_,
      fun absent => edited.recurrenceRule (noteOther absent),fun absent => edited.participants (noteOther absent)⟩
    exact (by simpa using noteSame absent : timeZone = edit.1.timeZone).trans untouched

theorem recurrenceEdited (edited : Edited a edit) (untouched : edit.1.recurrenceRule = a.recurrenceRule)
    (ok : updateRecurrence patch edit = .ok edit') : Edited a edit' := by
  unfold updateRecurrence at ok
  split at ok
  · cases ok
    exact edited
  · obtain ⟨rule,-,ok⟩ := bindSource ok
    cases ok
    refine ⟨edited.id,edited.status,edited.materialisedThrough,edited.createdByMemberId,edited.createdAt,
      fun absent => edited.timing (noteOther absent),fun absent => edited.timeZone (noteOther absent),fun absent => ?_,
      fun absent => edited.participants (noteOther absent)⟩
    have same := noteSame absent
    rw [decide_eq_false_iff_not,not_not] at same
    exact untouched ▸ same.symm

theorem participantsEdited (edited : Edited a edit) (untouched : edit.1.participants = a.participants) :
    Edited a (updateParticipants patch edit) := by
  unfold updateParticipants
  split
  · exact edited
  · refine ⟨edited.id,edited.status,edited.materialisedThrough,edited.createdByMemberId,edited.createdAt,
      fun absent => edited.timing (noteOther absent),fun absent => edited.timeZone (noteOther absent),
      fun absent => edited.recurrenceRule (noteOther absent),fun absent => .inr ?_⟩
    have same := noteSame absent
    rw [Bool.not_eq_false'] at same
    exact untouched ▸ same

end

theorem updateEdited {intl : Intl} {event : CalendarEvent} {patch : EventPatch} {now : Instant} {edit : Edit}
    (ok : event.update intl patch now = .ok edit) : Edited event edit := by
  obtain ⟨titled,first,ok⟩ := bindSource ok
  obtain ⟨timed,second,ok⟩ := bindSource ok
  obtain ⟨zoned,third,ok⟩ := bindSource ok
  obtain ⟨recurring,fourth,ok⟩ := bindSource ok
  have start : Edited event (event,[]) :=
    ⟨rfl,rfl,rfl,rfl,rfl,fun _ => .inl rfl,fun _ => rfl,fun _ => rfl,fun _ => .inl rfl⟩
  have title := titleUntouched first
  have details := @detailsUntouched patch titled
  have timing := timingUntouched second
  have zone := zoneUntouched third
  have edited₁ := timingEdited (detailsEdited (titleEdited start first)) (details.1.trans title.1) second
  have edited₂ := zoneEdited edited₁ ((timing.1.trans details.2.1).trans title.2.1) third
  have rule := ((zone.2.1.trans timing.2.1).trans details.2.2.1).trans title.2.2.1
  have edited₃ := recurrenceEdited edited₂ rule fourth
  have participants := ((zone.2.2.trans timing.2.2).trans details.2.2.2).trans title.2.2.2
  have edited₄ : Edited event (updateParticipants patch recurring) := 
      participantsEdited edited₃ ((recurrenceUntouched fourth).2.trans participants)
  generalize updateParticipants patch recurring = last at edited₄ ok
  cases ok
  split
  · exact start
  · exact ⟨edited₄.id,edited₄.status,edited₄.materialisedThrough,edited₄.createdByMemberId,edited₄.createdAt,
      edited₄.timing,edited₄.timeZone,edited₄.recurrenceRule,edited₄.participants⟩

section
variable {intl : Intl} {event : CalendarEvent} {patch : EventPatch} {now : Instant} {edit : Edit}

theorem updateTimed (ok : event.update intl patch now = .ok edit) : edit.1.timing = event.timing ∨
    ∃ asked merged, patch.timing = some asked ∧ mergeTiming event.timing asked = .ok merged ∧
      validateTiming merged = .ok edit.1.timing := by
  obtain ⟨titled,first,ok⟩ := bindSource ok
  obtain ⟨timed,second,ok⟩ := bindSource ok
  obtain ⟨zoned,third,ok⟩ := bindSource ok
  obtain ⟨recurring,fourth,ok⟩ := bindSource ok
  have before := (@detailsUntouched patch titled).1.trans (titleUntouched first).1
  have after := ((@participantsUntouched patch recurring).1.trans (recurrenceUntouched fourth).1).trans (zoneUntouched third).1
  generalize updateParticipants patch recurring = last at after ok
  cases ok
  split
  · exact .inl rfl
  unfold updateTiming at second
  split at second
  · cases second
    exact .inl (after.trans before)
  · rename_i asked is
    obtain ⟨merged,merges,second⟩ := bindSource second
    obtain ⟨timing,valid,second⟩ := bindSource second
    cases second
    exact .inr ⟨asked,merged,is,before ▸ merges,valid.trans (congrArg Except.ok after.symm)⟩

theorem updateRuled (ok : event.update intl patch now = .ok edit) : edit.1.recurrenceRule = event.recurrenceRule ∨
    ∃ text, parseRule text = .ok edit.1.recurrenceRule := by
  obtain ⟨titled,first,ok⟩ := bindSource ok
  obtain ⟨timed,second,ok⟩ := bindSource ok
  obtain ⟨zoned,third,ok⟩ := bindSource ok
  obtain ⟨recurring,fourth,ok⟩ := bindSource ok
  have before := (((zoneUntouched third).2.1.trans (timingUntouched second).2.1).trans
    (@detailsUntouched patch titled).2.2.1).trans (titleUntouched first).2.2.1
  have after := (@participantsUntouched patch recurring).2
  generalize updateParticipants patch recurring = last at after ok
  cases ok
  split
  · exact .inl rfl
  unfold updateRecurrence at fourth
  split at fourth
  · cases fourth
    exact .inl (after.trans before)
  · rename_i text _
    obtain ⟨rule,read,fourth⟩ := bindSource fourth
    cases fourth
    exact .inr ⟨text,read.trans (congrArg Except.ok after.symm)⟩

end

end CalendarEvent
end FamilyPlatform.Calendar
