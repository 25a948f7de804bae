import FamilyPlatform.Api.Idempotency

/-! Overlapping retries. Every stored response is a committed success of its key; that a
key has one success rests on when the handlers commit. -/
namespace FamilyPlatform.Idempotency
open Interleaving (Discipline Holds applyAll applyAllOne Within Move Config run begins Reaches runInvariant)

variable {Payload Body App : Type} {sha256 : String → String}
  {handle : Payload → Nat → App → Option (App × Response Body)}

/- ADR-006: a second, identical request must not create a second resource. -/
def HandledOnce (s : Store Payload Body App) : Prop :=
  ∀ h ∈ s.handled, (scope h.1).isSome → (s.handled.filter (fun g => scope g.1 = scope h.1)).length ≤ 1

instance (s : Store Payload Body App) : Decidable (HandledOnce s) := by unfold HandledOnce; infer_instance

/- When a success commits, the lookup of its key would miss once more, and no success of
the key is waiting to be stored. -/
def Unraced (handle : Payload → Nat → App → Option (App × Response Body)) (s : Store Payload Body App) :
    Statement Payload Body → Prop
  | .handle call r => match handle r.payload call s.app with
    | some (_, response) => response.isSuccess → ∀ k ∈ scope r, s.entries.find k = none ∧ k ∉ s.awaiting
    | none => True
  | .save _ => True

def UnracedBatch (handle : Payload → Nat → App → Option (App × Response Body))
    (batch : List (Statement Payload Body)) (s : Store Payload Body App) : Prop :=
  ∀ w ∈ batch, Unraced handle s w

instance (s : Store Payload Body App) (w) : Decidable (Unraced handle s w) :=
  match w with
  | .handle call r =>
    match outcome : handle r.payload call s.app with
    | some (_, response) => decidable_of_iff (response.isSuccess → ∀ k ∈ scope r,
        (s.entries.find k).isNone ∧ k ∉ s.awaiting) (by simp [Unraced,outcome])
    | none => .isTrue (by simp [Unraced,outcome])
  | .save _ => .isTrue trivial

instance (batch) (s : Store Payload Body App) : Decidable (UnracedBatch handle batch s) := by
  unfold UnracedBatch; infer_instance

def Succeeded (s : Store Payload Body App) (k : UserId × String) (response : Response Body) : Prop :=
  ∃ h ∈ s.handled, scope h.1 = some k ∧ h.2 = response

structure Recorded (s : Store Payload Body App) : Prop where
  stored : ∀ e ∈ s.entries.rows, Succeeded s (e.userId, e.key) e.response
  kept : ∀ h ∈ s.handled, ∀ k ∈ scope h.1, (s.entries.find k).isSome ∨ k ∈ s.awaiting

inductive Promise (s : Store Payload Body App) : List (Statement Payload Body) → Prop where
  | handle (call : Nat) (r : Request Payload) : Promise s [.handle call r]
  | save {e : Entry Body} (succeeded : Succeeded s (e.userId, e.key) e.response) : Promise s [.save e]

theorem handledSource {call : Nat} {r : Request Payload} {s t : Store Payload Body App}
    (applied : apply handle (.handle call r) s = some t) : t.entries = s.entries ∧
    ∃ app response, handle r.payload call s.app = some (app, response) ∧
      if response.isSuccess then t.handled = s.handled ++ [(r, response)] ∧
        t.awaiting = s.awaiting ++ (scope r).toList
      else t.handled = s.handled ∧ t.awaiting = s.awaiting := by
  simp only [apply,bind,Option.bind_eq_some_iff] at applied
  obtain ⟨⟨app,response⟩,outcome,last⟩ := applied
  split at last
  · rename_i success
    rw [← Option.some.inj last]
    exact ⟨rfl,app,response,outcome,by rw [if_pos success]; exact ⟨rfl,rfl⟩⟩
  · rename_i refused
    rw [← Option.some.inj last]
    exact ⟨rfl,app,response,outcome,by rw [if_neg refused]; exact ⟨rfl,rfl⟩⟩

theorem savedSource {e : Entry Body} {s t : Store Payload Body App}
    (applied : apply handle (.save e) s = some t) : s.entries.insert e = some t.entries ∧
    t.handled = s.handled ∧ t.awaiting = s.awaiting.filter (· ≠ (e.userId, e.key)) := by
  simp only [apply,bind,Option.bind_eq_some_iff] at applied
  obtain ⟨entries,inserted,last⟩ := applied
  rw [← Option.some.inj last]
  exact ⟨inserted,rfl,rfl⟩

theorem handledCases {call : Nat} {r : Request Payload} {s t : Store Payload Body App}
    (applied : apply handle (.handle call r) s = some t) :
    ∃ app response, handle r.payload call s.app = some (app, response) ∧
      ((response.isSuccess = true ∧ t.handled = s.handled ++ [(r, response)] ∧
          t.awaiting = s.awaiting ++ (scope r).toList) ∨
        (response.isSuccess = false ∧ t.handled = s.handled ∧ t.awaiting = s.awaiting)) := by
  obtain ⟨-,app,response,outcome,rest⟩ := handledSource applied
  refine ⟨app,response,outcome,?_⟩
  split at rest
  · rename_i success
    exact .inl ⟨success,rest⟩
  · rename_i refused
    exact .inr ⟨by simpa using refused,rest⟩

theorem promiseHandled {batch : List (Statement Payload Body)} {s t : Store Payload Body App}
    (promise : Promise s batch) (applied : applyAll (apply handle) batch s = some t) :
    ∀ h ∈ s.handled, h ∈ t.handled := by
  intro h mem
  cases promise with
  | handle call r =>
    rw [applyAllOne] at applied
    obtain ⟨app,response,-,⟨-,more,-⟩ | ⟨-,same,-⟩⟩ := handledCases applied
    · rw [more]
      exact List.mem_append_left _ mem
    · rw [same]
      exact mem
  | save succeeded =>
    rw [applyAllOne] at applied
    rw [(savedSource applied).2.1]
    exact mem

theorem Succeeded.later {s t : Store Payload Body App} {k : UserId × String} {response : Response Body}
    (succeeded : Succeeded s k response) (later : ∀ h ∈ s.handled, h ∈ t.handled) :
    Succeeded t k response := by
  obtain ⟨h,mem,own,same⟩ := succeeded
  exact ⟨h,later h mem,own,same⟩

theorem recordedKept {batch : List (Statement Payload Body)} {s t : Store Payload Body App}
    (recorded : Recorded s) (promise : Promise s batch)
    (applied : applyAll (apply handle) batch s = some t) : Recorded t := by
  have later := promiseHandled promise applied
  cases promise with
  | handle call r =>
    rw [applyAllOne] at applied
    have entries := (handledSource applied).1
    refine ⟨fun e mem => (recorded.stored e (entries ▸ mem)).later later,?_⟩
    intro h mem k own
    rw [entries]
    obtain ⟨app,response,-,⟨-,more,waits⟩ | ⟨-,same,waits⟩⟩ := handledCases applied
    · rw [more] at mem
      rw [waits]
      rcases List.mem_append.mp mem with old | new
      · exact (recorded.kept h old k own).imp_right (List.mem_append_left _)
      · rw [List.mem_singleton] at new
        subst h
        exact .inr (List.mem_append_right _ (by simpa using own))
    · rw [same] at mem
      rw [waits]
      exact recorded.kept h mem k own
  | @save e succeeded =>
    rw [applyAllOne] at applied
    obtain ⟨inserted,handled,waits⟩ := savedSource applied
    obtain ⟨rows,-⟩ := Table.insertRows inserted
    refine ⟨?_,?_⟩
    · intro x mem
      rw [rows] at mem
      rcases List.mem_append.mp mem with old | new
      · exact (recorded.stored x old).later later
      · rw [List.mem_singleton] at new
        exact new ▸ succeeded.later later
    · intro h mem k own
      rw [handled] at mem
      have found : ∀ x ∈ t.entries.rows, (t.entries.find (x.userId, x.key)).isSome := fun x there => by
        rw [Table.findMember there]
        rfl
      obtain old | waiting := recorded.kept h mem k own
      · obtain ⟨x,there⟩ := Option.isSome_iff_exists.mp old
        obtain ⟨source,rfl⟩ := Table.findSource there
        exact .inl (found x (rows ▸ List.mem_append_left _ source))
      · by_cases stored : k = (e.userId, e.key)
        · subst k
          exact .inl (found e (rows ▸ List.mem_append_right _ (List.mem_singleton_self e)))
        · rw [waits]
          exact .inr (List.mem_filter.mpr ⟨waiting,by simpa using stored⟩)

def Answered (a : Answer Payload Body) (s : Store Payload Body App) : Prop :=
  a.response.isSuccess → ∀ k ∈ scope a.request, Succeeded s k a.response

variable (handle) in
def discipline : Discipline (apply handle) (Answer Payload Body) where
  good := fun _ => Recorded
  rely := fun _ s t => ∀ h ∈ s.handled, h ∈ t.handled
  promise := fun _ batch s => Promise s batch
  answer := fun _ => Answered
  issue := id
  refl := fun _ _ _ mem => mem
  trans := fun first second h mem => second h (first h mem)
  stays := fun answered later success k own => (answered success k own).later later
  keeps := fun _ recorded promise applied =>
    ⟨recordedKept recorded promise applied,fun _ _ => promiseHandled promise applied⟩

theorem handledHolds {r : Request Payload} {i : Nat} {next : Response Body → Script Payload Body App}
    {s : Store Payload Body App}
    (after : ∀ t response, (response.isSuccess → ∀ k ∈ scope r, Succeeded t k response) →
      Holds (discipline handle) i (next response) t) :
    Holds (discipline handle) i (handled handle r i next) s := by
  intro n t _ _ _
  refine ⟨.handle i r,?_⟩
  intro u applied
  rw [applyAllOne] at applied
  obtain ⟨app,response,outcome,cases_⟩ := handledCases applied
  simp only [outcome]
  refine after u response ?_
  intro success k own
  obtain ⟨-,more,-⟩ | ⟨refused,-⟩ := cases_
  · exact ⟨(r, response),more ▸ List.mem_append_right _ (List.mem_singleton_self _),own,rfl⟩
  · rw [refused] at success
    cases success

theorem storedHolds {r : Request Payload} {i : Nat} {userId : UserId} {key : String}
    {response : Response Body} {s : Store Payload Body App} (own : scope r = some (userId, key))
    (succeeded : response.isSuccess → ∀ k ∈ scope r, Succeeded s k response) :
    Holds (discipline handle) i (stored sha256 r userId key response) s := by
  unfold stored
  split
  · rename_i success
    intro n t _ _ later
    have kept : Succeeded t (userId, key) response := (succeeded success _ own).later later
    refine ⟨.save kept,?_⟩
    intro u applied _ k same
    have saved := promiseHandled (.save (e := entry sha256 r userId key response) kept) applied
    cases Option.some.inj (own.symm.trans same)
    exact kept.later saved
  · exact succeeded

theorem idempotentHolds (i : Nat) (s : Store Payload Body App) (r : Request Payload)
    (_ : (discipline handle).good i s) :
    Holds (discipline handle) i ((routes sha256 handle).start r i) s := by
  change Holds (discipline handle) i (idempotent sha256 handle r i) s
  unfold idempotent
  split
  · exact handledHolds fun t response succeeded => succeeded
  · rename_i userId key own
    refine Interleaving.holdsRead fun n t _ recorded _ => ?_
    split
    · rename_i existing found
      obtain ⟨mem,same⟩ := Table.findSource found
      intro _ k at_
      cases Option.some.inj (own.symm.trans at_)
      exact same ▸ recorded.stored existing mem
    · exact handledHolds fun u response succeeded => storedHolds own succeeded

theorem handledOnceKept {i n : Nat} {batch : List (Statement Payload Body)}
    {s t : Store Payload Body App} (_ : i < n) (recorded : (discipline handle).good n s)
    (promise : (discipline handle).promise i batch s) (unraced : UnracedBatch handle batch s)
    (once : HandledOnce s) (applied : applyAll (apply handle) batch s = some t) : HandledOnce t := by
  cases promise with
  | handle call r =>
    rw [applyAllOne] at applied
    have free := unraced _ (List.mem_singleton_self _)
    obtain ⟨app,response,outcome,⟨success,more,-⟩ | ⟨-,same,-⟩⟩ := handledCases applied
    · simp only [Unraced,outcome] at free
      -- a success on record under the key would be stored or waiting
      have none : ∀ k ∈ scope r, ∀ h ∈ s.handled, scope h.1 ≠ some k := by
        intro k own h mem same
        obtain ⟨missing,waits⟩ := free success k own
        obtain there | waiting := recorded.kept h mem k same
        · rw [missing] at there
          cases there
        · exact waits waiting
      intro h mem keyed
      rw [more,List.filter_append,List.length_append]
      obtain ⟨k,own⟩ := Option.isSome_iff_exists.mp keyed
      by_cases fresh : scope r = scope h.1
      · have old : s.handled.filter (fun g => scope g.1 = scope h.1) = [] := by
          rw [List.filter_eq_nil_iff]
          intro g there
          simpa [own] using none k (fresh.trans own) g there
        simp [old,fresh]
      · rw [more] at mem
        rcases List.mem_append.mp mem with before | new
        · have tail : [(r, response)].filter (fun g => scope g.1 = scope h.1) = [] := by simp [fresh]
          rw [tail]
          exact once h before keyed
        · rw [List.mem_singleton] at new
          exact absurd (by rw [new]) fresh
    · unfold HandledOnce
      rw [same]
      exact once
  | save succeeded =>
    rw [applyAllOne] at applied
    unfold HandledOnce
    rw [(savedSource applied).2.1]
    exact once

theorem openedRecorded (app : App) : Recorded (opened app : Store Payload Body App) :=
  ⟨fun _ mem => (List.not_mem_nil mem).elim,fun _ mem => (List.not_mem_nil mem).elim⟩

theorem onceEqual {s : Store Payload Body App} (once : HandledOnce s) {k : UserId × String}
    {a b : Response Body} (left : Succeeded s k a) (right : Succeeded s k b) : a = b := by
  obtain ⟨g,there,own,rfl⟩ := left
  obtain ⟨h,present,same,rfl⟩ := right
  have few := once g there (by rw [own]; rfl)
  have first : g ∈ s.handled.filter (fun x => scope x.1 = scope g.1) :=
    List.mem_filter.mpr ⟨there,by simp⟩
  have second : h ∈ s.handled.filter (fun x => scope x.1 = scope g.1) :=
    List.mem_filter.mpr ⟨present,by simp [own,same]⟩
  match filtered : s.handled.filter (fun x => scope x.1 = scope g.1) with
  | [] => simp [filtered] at first
  | [x] =>
    rw [filtered,List.mem_singleton] at first second
    rw [first,second]
  | _ :: _ :: _ => simp [filtered] at few

/-- Where no success commits while an earlier one of its key is stored or waiting to be,
each key has one success and every 2xx answer under it carries the same response. -/
theorem runHandledOnce {app : App} {moves : List (Move (Request Payload))}
    {last : Config (Store Payload Body App) (Statement Payload Body) (Answer Payload Body)}
    (unraced : Within (routes sha256 handle) (UnracedBatch handle) (begins (opened app)) moves)
    (ran : run (routes sha256 handle) (begins (opened app)) moves = some last) :
    HandledOnce last.store ∧ ∀ (i j : Nat) (a b : Answer Payload Body),
      last.calls[i]? = some (.returned a) → last.calls[j]? = some (.returned b) → (scope a.request).isSome →
      scope a.request = scope b.request → a.response.isSuccess → b.response.isSuccess →
      a.response = b.response := by
  obtain ⟨sound,once⟩ := runInvariant idempotentHolds handledOnceKept (openedRecorded app)
    (fun _ mem => (List.not_mem_nil mem).elim) unraced ran
  refine ⟨once,?_⟩
  intro i j a b left right keyed same success success'
  obtain ⟨k,own⟩ := Option.isSome_iff_exists.mp keyed
  have answered : Answered a last.store := sound.2 i _ left
  have answered' : Answered b last.store := sound.2 j _ right
  exact onceEqual once (answered success k own) (answered' success' k (same ▸ own))

def creates (_ : String) (_ count : Nat) : Option (Nat × Response Nat) := some (count + 1, ⟨201,count⟩)

def createTwice : Request String := ⟨some 1,some "key",⟨"family",by decide⟩,"createTask","body",""⟩

def retryAfter : List (Move (Request String)) :=
  [.begin createTwice,.advance 0,.advance 0,.begin createTwice,.advance 0,.advance 1]

theorem retryAfterHandledOnce :
    Reaches (routes id creates) (begins (opened 0)) retryAfter
      (fun c => HandledOnce c.store ∧ ∀ (i j : Nat) (a b : Answer String Nat),
        c.calls[i]? = some (.returned a) → c.calls[j]? = some (.returned b) →
        (scope a.request).isSome → scope a.request = scope b.request → a.response.isSuccess →
        b.response.isSuccess → a.response = b.response) := by
  obtain ⟨last,ran⟩ := Option.isSome_iff_exists.mp
    (by decide +kernel : (run (routes id creates) (begins (opened 0)) retryAfter).isSome)
  exact ⟨last,ran,runHandledOnce (by decide +kernel) ran⟩

def retryMeanwhile : List (Move (Request String)) :=
  [.begin createTwice,.begin createTwice,.advance 0,.advance 1,.advance 0,.advance 1,.advance 0]

theorem retryMeanwhileHandledTwice :
    Reaches (routes id creates) (begins (opened 0)) retryMeanwhile
      (fun c => ¬ HandledOnce c.store ∧ c.store.app = 2) := by
  decide +kernel

end FamilyPlatform.Idempotency
