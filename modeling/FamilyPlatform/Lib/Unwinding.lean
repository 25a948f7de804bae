import FamilyPlatform.Lib.Gates

/-! Two runs of one system, from stores that differ in what no caller may see. A call does
alike in both, or is turned away in both: then it may read differently, but commits one
batch, and gives one answer. -/
namespace FamilyPlatform.Interleaving

variable {Store Statement Call Reply : Type}

section
variable (alike : Store → Store → Prop) (pairs : List Statement → List Statement → Prop)

/- Scripts that do alike on stores that are alike. -/
def Similar : Steps Store Statement Reply → Steps Store Statement Reply → Prop
  | .returned reply, other => other = .returned reply
  | .thrown, other => other = .thrown
  | .read next, other => ∃ next', other = .read next' ∧ ∀ s t, alike s t → Similar (next s) (next' t)
  | .commit batch next, other => ∃ batch' next', other = .commit batch' next' ∧ pairs batch batch' ∧
      ∀ s t, alike s t → Similar (next s) (next' t)

end

def Turned (kept : Store → Prop) (batch : List Statement) (reply : Reply) : Steps Store Statement Reply → Prop
  | .returned _ | .thrown => False
  | .read next => ∀ s, kept s → Turned kept batch reply (next s)
  | .commit written next => written = batch ∧ ∀ s, kept s → next s = .returned reply

theorem turnedRead {kept : Store → Prop} {batch : List Statement} {reply : Reply} {next : Store → Steps Store Statement Reply}
    (after : ∀ s, kept s → Turned kept batch reply (next s)) : Turned kept batch reply (.read next) := after

section
variable {alike : Store → Store → Prop} {pairs : List Statement → List Statement → Prop}

theorem similarRead {next next' : Store → Steps Store Statement Reply}
    (after : ∀ s t, alike s t → Similar alike pairs (next s) (next' t)) :
    Similar alike pairs (.read next) (.read next') := ⟨next',rfl,after⟩

theorem similarCommit {batch batch' : List Statement} {next next' : Store → Steps Store Statement Reply}
    (paired : pairs batch batch') (after : ∀ s t, alike s t → Similar alike pairs (next s) (next' t)) :
    Similar alike pairs (.commit batch next) (.commit batch' next') := ⟨batch',next',rfl,paired,after⟩

theorem similarBind {Next : Type} {l l' : Steps Store Statement Reply} {f g : Reply → Steps Store Statement Next}
    (first : Similar alike pairs l l') (after : ∀ reply, Similar alike pairs (f reply) (g reply)) :
    Similar alike pairs (l.bind f) (l'.bind g) := by
  induction l generalizing l' with
  | returned reply =>
    cases first
    exact after reply
  | thrown =>
    cases first
    rfl
  | read next ih =>
    obtain ⟨next',rfl,first⟩ := first
    exact similarRead fun s t same => ih s (first s t same)
  | commit batch next ih =>
    obtain ⟨batch',next',rfl,paired,first⟩ := first
    exact similarCommit paired fun s t same => ih s (first s t same)

theorem similarWrites {kept : Store → Prop} {batches : List Statement → Prop} (sees : ∀ s t, alike s t → kept s)
    {l l' : Steps Store Statement Reply} (similar : Similar alike Eq l l') (writes : Writes kept batches l) :
    Similar alike (fun batch batch' => batch = batch' ∧ batches batch) l l' := by
  induction l generalizing l' with
  | returned reply => exact similar
  | thrown => exact similar
  | read next ih =>
    obtain ⟨next',rfl,similar⟩ := similar
    exact similarRead fun s t same => ih s (similar s t same) (writes s (sees s t same))
  | commit batch next ih =>
    obtain ⟨batch',next',rfl,rfl,similar⟩ := similar
    exact similarCommit ⟨rfl,writes.1⟩ fun s t same => ih s (similar s t same) (writes.2 s (sees s t same))

theorem applyAllRel {apply : Statement → Store → Option Store} {batch : List Statement}
    (each : ∀ w ∈ batch, ∀ s t, alike s t → Option.Rel alike (apply w s) (apply w t)) {s t : Store} (same : alike s t) :
    Option.Rel alike (applyAll apply batch s) (applyAll apply batch t) := by
  induction batch generalizing s t with
  | nil => exact .some same
  | cons w rest ih =>
    have first := each w List.mem_cons_self s t same
    simp only [applyAll,bind]
    generalize apply w s = one at first
    generalize apply w t = two at first
    cases first with
    | none => exact .none
    | some next => exact ih (fun v mem => each v (List.mem_cons_of_mem w mem)) next

theorem similarLift {Wide Wider : Type} {view : Wide → Store} {f : Statement → Wider} {wide : Wide → Wide → Prop}
    {others : List Wider → List Wider → Prop} {l l' : Steps Store Statement Reply}
    (views : ∀ x y, wide x y → alike (view x) (view y))
    (maps : ∀ batch batch', pairs batch batch' → others (batch.map f) (batch'.map f))
    (similar : Similar alike pairs l l') : Similar wide others ((l.over view).lift f) ((l'.over view).lift f) := by
  induction l generalizing l' with
  | returned reply =>
    cases similar
    rfl
  | thrown =>
    cases similar
    rfl
  | read next ih =>
    obtain ⟨next',rfl,similar⟩ := similar
    exact similarRead fun x y same => ih (view x) (similar _ _ (views x y same))
  | commit batch next ih =>
    obtain ⟨batch',next',rfl,paired,similar⟩ := similar
    exact similarCommit (maps batch batch' paired) fun x y same => ih (view x) (similar _ _ (views x y same))

end

section
variable (alike : Store → Store → Prop) (pairs : List Statement → List Statement → Prop) (left right : Store → Prop)

def Paired (l l' : Steps Store Statement Reply) : Prop :=
  Similar alike pairs l l' ∨ ∃ batch reply, pairs batch batch ∧ Turned left batch reply l ∧ Turned right batch reply l'

structure Matched (c d : Config Store Statement Reply) : Prop where
  stores : alike c.store d.store
  count : c.calls.length = d.calls.length
  calls : ∀ (i : Nat) l l', c.calls[i]? = some l → d.calls[i]? = some l' → Paired alike pairs left right l l'

variable {alike pairs left right} {p : System Store Statement Call Reply} {c d last : Config Store Statement Reply}
  {ok : Call → Prop}

theorem similarReply {l l' : Steps Store Statement Reply} (similar : Similar alike pairs l l') : l.reply = l'.reply := by
  cases l with
  | returned reply =>
    cases similar
    rfl
  | thrown =>
    cases similar
    rfl
  | read next =>
    obtain ⟨next',rfl,-⟩ := similar
    rfl
  | commit batch next =>
    obtain ⟨batch',next',rfl,-⟩ := similar
    rfl

theorem turnedReply {kept : Store → Prop} {batch : List Statement} {reply : Reply} {l : Steps Store Statement Reply}
    (turned : Turned kept batch reply l) : l.reply = none := by
  cases l with
  | returned other => exact turned.elim
  | thrown => rfl
  | read next => rfl
  | commit written next => rfl

theorem matchedReplies (matched : Matched alike pairs left right c d) : c.replies = d.replies := by
  refine List.ext_getElem? (fun i => ?_)
  simp only [Config.replies,List.getElem?_map]
  cases at_ : c.calls[i]? with
  | none => rw [List.getElem?_eq_none (matched.count ▸ List.getElem?_eq_none_iff.mp at_)]
  | some l =>
    have lt : i < d.calls.length := matched.count ▸ (List.getElem?_eq_some_iff.mp at_).1
    rw [List.getElem?_eq_getElem lt]
    rcases matched.calls i l _ at_ (List.getElem?_eq_getElem lt) with similar | ⟨batch,reply,-,one,other⟩
    · exact congrArg some (similarReply similar)
    · exact congrArg some ((turnedReply one).trans (turnedReply other).symm)

theorem turnedEnds {i : Nat} {batch : List Statement} {reply : Reply} {l : Steps Store Statement Reply}
    (kept : right d.store) (turned : Turned right batch reply l) (found : d.calls[i]? = some l) :
    ∃ moves, begun moves = ([] : List Call) ∧ run p d moves = some (match applyAll p.apply batch d.store with
      | some t => ⟨t,d.calls.set i (.returned reply)⟩
      | none => ⟨d.store,d.calls.set i .thrown⟩) := by
  have lt := (List.getElem?_eq_some_iff.mp found).1
  induction l generalizing d with
  | returned other => exact turned.elim
  | thrown => exact turned.elim
  | read next ih =>
    have stays : (d.calls.set i (next d.store))[i]? = some (next d.store) := List.getElem?_set_self lt
    obtain ⟨moves,none,ran⟩ := @ih d.store ⟨d.store,d.calls.set i (next d.store)⟩ kept (turned d.store kept) stays (by simpa using lt)
    refine ⟨.advance i :: moves,none,?_⟩
    simp only [run,move,found,advance,bind,Option.bind_some]
    simpa using ran
  | commit written next =>
    obtain ⟨rfl,ends⟩ := turned
    refine ⟨[.advance i],rfl,?_⟩
    simp only [run,move,found,advance,bind,Option.bind_some]
    cases applyAll p.apply written d.store with
    | none => rfl
    | some t => simp [ends d.store kept]

theorem matchedSet {s t : Store} {i : Nat} {l l' : Steps Store Statement Reply} (matched : Matched alike pairs left right c d)
    (stores : alike s t) (paired : Paired alike pairs left right l l') :
    Matched alike pairs left right ⟨s,c.calls.set i l⟩ ⟨t,d.calls.set i l'⟩ := by
  refine ⟨stores,by simpa using matched.count,fun j k k' one other => ?_⟩
  rcases setCases one with ⟨rfl,rfl⟩ | ⟨apart,old⟩
  · rcases setCases other with ⟨-,rfl⟩ | ⟨apart,-⟩
    · exact paired
    · exact absurd rfl apart
  · rcases setCases other with ⟨rfl,-⟩ | ⟨-,old'⟩
    · exact absurd rfl apart
    · exact matched.calls j k k' old old'

theorem matchedBegun {call : Call} (matched : Matched alike pairs left right c d)
    (paired : Paired alike pairs left right (p.start call c.calls.length) (p.start call d.calls.length)) :
    Matched alike pairs left right ⟨c.store,c.calls ++ [p.start call c.calls.length]⟩
      ⟨d.store,d.calls ++ [p.start call d.calls.length]⟩ := by
  refine ⟨matched.stores,by simp [matched.count],fun i l l' one other => ?_⟩
  rcases begunCases one with old | ⟨rfl,rfl⟩ <;> rcases begunCases other with old' | ⟨at_,rfl⟩
  · exact matched.calls i l l' old old'
  · have lt := (List.getElem?_eq_some_iff.mp old).1
    exact absurd (matched.count ▸ at_ ▸ lt) (Nat.lt_irrefl _)
  · have lt := (List.getElem?_eq_some_iff.mp old').1
    exact absurd (matched.count ▸ lt) (Nat.lt_irrefl _)
  · exact paired

section
variable (keeps : ∀ batch batch' s t, pairs batch batch' → alike s t →
  Option.Rel alike (applyAll p.apply batch s) (applyAll p.apply batch' t))
include keeps

/- The other call takes the same step. -/
theorem similarStep {i : Nat} {l l' after : Steps Store Statement Reply} {s : Store}
    (matched : Matched alike pairs left right c d) (there : d.calls[i]? = some l') (similar : Similar alike pairs l l')
    (stepped : advance p.apply l c.store = some (after,s)) :
    ∃ final, run p d [.advance i] = some final ∧ Matched alike pairs left right ⟨s,c.calls.set i after⟩ final := by
  simp only [run,move,there,bind,Option.bind_some]
  cases l with
  | returned reply => cases stepped
  | thrown => cases stepped
  | read next =>
    obtain ⟨next',is,similar⟩ := similar
    cases Option.some.inj stepped
    rw [is]
    exact ⟨_,rfl,matchedSet matched matched.stores (.inl (similar _ _ matched.stores))⟩
  | commit batch next =>
    obtain ⟨batch',next',is,paired,similar⟩ := similar
    have alike_ := keeps _ _ _ _ paired matched.stores
    rw [is]
    simp only [advance] at stepped ⊢
    generalize applyAll p.apply batch c.store = one at alike_ stepped
    generalize applyAll p.apply batch' d.store = two at alike_
    cases alike_ with
    | some same =>
      cases Option.some.inj stepped
      exact ⟨_,rfl,matchedSet matched same (.inl (similar _ _ matched.stores))⟩
    | none =>
      cases Option.some.inj stepped
      exact ⟨_,rfl,matchedSet matched matched.stores (.inl rfl)⟩

/- While the one call reads, the other waits; when it commits, the other reads what it still reads, and commits. -/
theorem turnedStep {i : Nat} {l l' after : Steps Store Statement Reply} {s : Store} {batch : List Statement}
    {reply : Reply} (matched : Matched alike pairs left right c d) (there : d.calls[i]? = some l')
    (paired : pairs batch batch) (seen : left c.store) (seen' : right d.store) (one : Turned left batch reply l)
    (two : Turned right batch reply l') (stepped : advance p.apply l c.store = some (after,s)) :
    ∃ others final, begun others = ([] : List Call) ∧ run p d others = some final ∧
      Matched alike pairs left right ⟨s,c.calls.set i after⟩ final := by
  cases l with
  | returned reply => cases stepped
  | thrown => cases stepped
  | read next =>
    cases Option.some.inj stepped
    have waits := @matchedSet _ _ _ _ _ _ _ c d _ _ i (next c.store) l' matched matched.stores
      (.inr ⟨batch,reply,paired,one _ seen,two⟩)
    have lt := (List.getElem?_eq_some_iff.mp there).1
    obtain rfl : d.calls[i] = l' := Option.some.inj ((List.getElem?_eq_getElem lt).symm.trans there)
    rw [List.set_getElem_self] at waits
    exact ⟨[],d,rfl,rfl,waits⟩
  | commit written next =>
    obtain ⟨rfl,ends⟩ := one
    obtain ⟨others,none_,ran⟩ := @turnedEnds _ _ _ _ right p d i written reply _ seen' two there
    have alike_ := keeps _ _ _ _ paired matched.stores
    refine ⟨others,_,none_,ran,?_⟩
    simp only [advance,ends _ seen] at stepped
    generalize applyAll p.apply written c.store = one at alike_ stepped
    generalize applyAll p.apply written d.store = two at alike_
    cases alike_ with
    | some same =>
      cases Option.some.inj stepped
      exact matchedSet matched same (.inl rfl)
    | none =>
      cases Option.some.inj stepped
      exact matchedSet matched matched.stores (.inl rfl)

end

theorem unwindsMove (views : ∀ s t, alike s t → left s ∧ right t)
    (keeps : ∀ batch batch' s t, pairs batch batch' → alike s t →
      Option.Rel alike (applyAll p.apply batch s) (applyAll p.apply batch' t))
    (start : ∀ call, ok call → ∀ number, Paired alike pairs left right (p.start call number) (p.start call number))
    {m : Move Call} (asked : ∀ call ∈ begun [m], ok call) {next : Config Store Statement Reply}
    (matched : Matched alike pairs left right c d) (moved : move p c m = some next) :
    ∃ others final, begun others = begun [m] ∧ run p d others = some final ∧ Matched alike pairs left right next final := by
  obtain ⟨call,rfl,rfl⟩ | ⟨i,l,l',s,rfl,found,stepped,rfl⟩ := moveCases moved
  · refine ⟨[.begin call],_,rfl,rfl,matchedBegun matched ?_⟩
    rw [matched.count]
    exact start call (asked call List.mem_cons_self) _
  · have lt : i < d.calls.length := matched.count ▸ (List.getElem?_eq_some_iff.mp found).1
    have there : d.calls[i]? = some d.calls[i] := List.getElem?_eq_getElem lt
    obtain ⟨seen,other⟩ := views _ _ matched.stores
    rcases matched.calls i l _ found there with similar | ⟨batch,reply,paired,one,two⟩
    · obtain ⟨final,ran,same⟩ := similarStep keeps matched there similar stepped
      exact ⟨[.advance i],final,rfl,ran,same⟩
    · exact turnedStep keeps matched there paired seen other one two stepped

/-- A run from the one store is answered by a run from the other that begins the same calls. -/
theorem unwinds (views : ∀ s t, alike s t → left s ∧ right t)
    (keeps : ∀ batch batch' s t, pairs batch batch' → alike s t →
      Option.Rel alike (applyAll p.apply batch s) (applyAll p.apply batch' t))
    (start : ∀ call, ok call → ∀ number, Paired alike pairs left right (p.start call number) (p.start call number))
    {moves : List (Move Call)} (asked : ∀ call ∈ begun moves, ok call)
    (matched : Matched alike pairs left right c d) (ran : run p c moves = some last) :
    ∃ others final, begun others = begun moves ∧ run p d others = some final ∧ Matched alike pairs left right last final := by
  induction moves generalizing c d with
  | nil =>
    cases Option.some.inj ran
    exact ⟨[],d,rfl,rfl,matched⟩
  | cons m rest ih =>
    obtain ⟨next,moved,ran⟩ := Option.bind_eq_some_iff.mp ran
    have split : begun (m :: rest) = begun [m] ++ begun rest := begunAppend [m] rest
    rw [split] at asked ⊢
    obtain ⟨first,mid,same,reached,one⟩ :=
      unwindsMove views keeps start (fun call mem => asked call (List.mem_append_left _ mem)) matched moved
    obtain ⟨more,final,later,ends,two⟩ := ih (fun call mem => asked call (List.mem_append_right _ mem)) one ran
    refine ⟨first ++ more,final,?_,?_,two⟩
    · rw [begunAppend,same,later]
    · rw [runAppend,reached]
      exact ends

end
end FamilyPlatform.Interleaving
