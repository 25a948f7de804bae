import FamilyPlatform.Worker.Scheduler

/-! What the scheduler keeps, whatever fires, ends or fails and however often it is stopped
and started: one run and one timer of a sweep at a time, a next tick as long as it is not
stopped, and no run while it is. -/
namespace FamilyPlatform.Worker
open Steps SweepScheduler

variable {n : Nat} {sweeps : Fin n → RegisteredSweep} {c next last : SweepScheduler n}

def Tick.holds (i : Fin n) (t : Tick n) : Bool := t.sweep = i && t.phase ≠ .beating

structure Sound (c : SweepScheduler n) : Prop where
  own : ∀ t ∈ c.timers, (c.states t.sweep).timer = some t.id
  single : (c.timers.map Timer.sweep).Nodup
  armed : c.started = true → c.stopping = false → ∀ i, i ∈ c.timers.map Timer.sweep
  idle : c.started = false ∨ c.stopping = true → c.timers = []
  held : ∀ i, c.ticks.countP (Tick.holds i) = if (c.states i).inFlight then 1 else 0
  running : ∀ t ∈ c.ticks, t.phase = .running → (c.states t.sweep).running = some t.id
  waiting : c.stop.isSome = true → c.stopping = true
  awaits : ∀ a, c.stop = some a → ∀ t ∈ c.ticks, t.phase = .running → t.id ∈ a.runs

structure TimersOnly (c next : SweepScheduler n) : Prop where
  started : next.started = c.started
  stopping : next.stopping = c.stopping
  ticks : next.ticks = c.ticks
  stop : next.stop = c.stop
  begun : next.begun = c.begun
  states : ∀ i, { next.states i with timer := none } = { c.states i with timer := none }

theorem TimersOnly.refl : TimersOnly c c := ⟨rfl,rfl,rfl,rfl,rfl,fun _ => rfl⟩

theorem TimersOnly.trans (first : TimersOnly c next) (second : TimersOnly next last) : TimersOnly c last :=
  ⟨second.started.trans first.started,second.stopping.trans first.stopping,second.ticks.trans first.ticks,
    second.stop.trans first.stop,second.begun.trans first.begun,fun i => (second.states i).trans (first.states i)⟩

theorem TimersOnly.inFlight (only : TimersOnly c next) (i : Fin n) : (next.states i).inFlight = (c.states i).inFlight := by
  have same := only.states i
  injection same

theorem TimersOnly.runs (only : TimersOnly c next) (i : Fin n) : (next.states i).running = (c.states i).running := by
  have same := only.states i
  injection same

theorem withStateOther {i j : Fin n} {change : SweepState → SweepState} (other : j ≠ i) :
    (c.withState i change).states j = c.states j := Function.update_of_ne other _ _

theorem withStateSame {i : Fin n} {change : SweepState → SweepState} :
    (c.withState i change).states i = change (c.states i) := Function.update_self _ _ _

theorem withTimer (i : Fin n) (timer : Option TimerId) (j : Fin n) :
    { (c.withState i (fun s => { s with timer := timer })).states j with timer := none } =
      { c.states j with timer := none } := by
  by_cases same : j = i
  · subst same
    rw [withStateSame]
  · rw [withStateOther same]

theorem armOnly (i : Fin n) (delayMs : Nat) : TimersOnly c (c.arm i delayMs) := by
  unfold arm
  split
  · exact .refl
  · exact ⟨rfl,rfl,rfl,rfl,rfl,withTimer i _⟩

theorem clearOnly (i : Fin n) : TimersOnly c (c.clearTimer i) := by
  unfold clearTimer
  split
  · exact .refl
  · exact ⟨rfl,rfl,rfl,rfl,rfl,withTimer i _⟩

theorem foldOnly {f : SweepScheduler n → Fin n → SweepScheduler n} (only : ∀ c i, TimersOnly c (f c i)) (l : List (Fin n)) :
    TimersOnly c (l.foldl f c) := by
  induction l generalizing c with
  | nil => exact .refl
  | cons i rest ih => exact (only c i).trans ih

def Owned (c : SweepScheduler n) : Prop := ∀ t ∈ c.timers, (c.states t.sweep).timer = some t.id

theorem armOwned {i : Fin n} {delayMs : Nat} (owned : Owned c) (fresh : i ∉ c.timers.map Timer.sweep) :
    Owned (c.arm i delayMs) := by
  unfold arm
  split
  · exact owned
  · intro t mem
    show ((c.withState i (fun s => { s with timer := some c.drawn })).states t.sweep).timer = some t.id
    rcases List.mem_append.mp mem with old | new
    · rw [withStateOther (fun same => fresh (List.mem_map.mpr ⟨t,old,same⟩))]
      exact owned t old
    · obtain rfl := List.mem_singleton.mp new
      rw [withStateSame]

theorem armSweeps {i : Fin n} {delayMs : Nat} (going : c.stopping = false) :
    (c.arm i delayMs).timers.map Timer.sweep = c.timers.map Timer.sweep ++ [i] := by
  simp [arm,going]

theorem armsAll (sweeps : Fin n → RegisteredSweep) (jitterMs : Fin n → Nat) {l : List (Fin n)}
    (going : c.stopping = false) (owned : Owned c) (nodup : (c.timers.map Timer.sweep ++ l).Nodup) :
    Owned (l.foldl (fun c i => (c.logged (.scheduled i (sweeps i).cadenceSeconds)).arm i (jitterMs i)) c) ∧
    (l.foldl (fun c i => (c.logged (.scheduled i (sweeps i).cadenceSeconds)).arm i (jitterMs i)) c).timers.map
      Timer.sweep = c.timers.map Timer.sweep ++ l := by
  induction l generalizing c with
  | nil => exact ⟨owned,(List.append_nil _).symm⟩
  | cons i rest ih =>
    have fresh : i ∉ c.timers.map Timer.sweep := by
      have apart := List.disjoint_of_nodup_append nodup
      exact fun mem => apart mem List.mem_cons_self
    have sweeps' : ((c.logged (.scheduled i (sweeps i).cadenceSeconds)).arm i (jitterMs i)).timers.map Timer.sweep =
        c.timers.map Timer.sweep ++ [i] := armSweeps going
    have step := @ih ((c.logged (.scheduled i (sweeps i).cadenceSeconds)).arm i (jitterMs i))
      ((armOnly i _).stopping.trans going) (armOwned owned fresh) (by rw [sweeps']; simpa using nodup)
    exact ⟨step.1,by rw [List.foldl_cons,step.2,sweeps']; simp⟩

theorem clearsOne {i : Fin n} : ∀ t ∈ (c.clearTimer i).timers, t ∈ c.timers ∧
    ((c.states t.sweep).timer = some t.id → t.sweep ≠ i) := by
  intro t mem
  unfold clearTimer at mem
  split at mem
  · rename_i none_
    refine ⟨mem,fun own same => ?_⟩
    rw [same,none_] at own
    cases own
  · rename_i id timer
    obtain ⟨mem,other⟩ := List.mem_filter.mp mem
    refine ⟨mem,fun own same => ?_⟩
    rw [same,timer] at own
    cases own
    simp at other

theorem clearOwned {i : Fin n} (owned : Owned c) : Owned (c.clearTimer i) := by
  intro t mem
  obtain ⟨old,other⟩ := clearsOne t mem
  unfold clearTimer
  split
  · exact owned t old
  · show ((c.withState i (fun s => { s with timer := none })).states t.sweep).timer = some t.id
    rw [withStateOther (other (owned t old))]
    exact owned t old

theorem clearsAll {l : List (Fin n)} (owned : Owned c) : ∀ t ∈ (l.foldl clearTimer c).timers, t ∈ c.timers ∧ t.sweep ∉ l := by
  induction l generalizing c with
  | nil => exact fun t mem => ⟨mem,List.not_mem_nil⟩
  | cons i rest ih =>
    intro t mem
    obtain ⟨mem,later⟩ := ih (clearOwned owned) t mem
    obtain ⟨old,other⟩ := clearsOne t mem
    exact ⟨old,by simpa using ⟨other (owned t old),later⟩⟩

theorem startsSound {jitterMs : Fin n → Nat} (sound : Sound c) (ready : c.stop = none) : Sound (c.starts sweeps jitterMs) := by
  unfold starts
  split
  · exact sound
  rename_i fresh
  have none_ : c.timers = [] := sound.idle (.inl (by simpa using fresh))
  obtain ⟨owned,armed⟩ := armsAll (c := { c with started := true, stopping := false }) sweeps jitterMs
    (l := List.finRange n) rfl (fun t mem => by simp [none_] at mem)
    (by simpa [none_] using List.nodup_finRange n)
  have only : TimersOnly { c with started := true, stopping := false } _ := foldOnly (fun c i =>
    (⟨rfl,rfl,rfl,rfl,rfl,fun _ => rfl⟩ : TimersOnly c (c.logged (.scheduled i (sweeps i).cadenceSeconds))).trans
      (armOnly i (jitterMs i))) (List.finRange n)
  generalize List.foldl _ _ _ = next at owned armed only
  simp only [none_,List.map_nil,List.nil_append] at armed
  exact {
    own := owned
    single := armed ▸ List.nodup_finRange n
    armed := fun _ _ i => armed ▸ List.mem_finRange i
    idle := fun idle => by rw [only.started,only.stopping] at idle; simp at idle
    held := fun i => by rw [only.ticks,only.inFlight]; exact sound.held i
    running := fun t mem runs => by rw [only.runs]; exact sound.running t (only.ticks ▸ mem) runs
    waiting := fun waits => by rw [only.stop,ready] at waits; cases waits
    awaits := fun a is => by rw [only.stop,ready] at is; cases is }

theorem stopsSound {deadlineMs : Nat} (sound : Sound c) : Sound (c.stops deadlineMs) := by
  have only : TimersOnly { c with stopping := true } _ := foldOnly (fun _ => clearOnly) (List.finRange n)
  have cleared : ((List.finRange n).foldl clearTimer { c with stopping := true }).timers = [] :=
    List.eq_nil_iff_forall_not_mem.mpr (fun t mem =>
      (clearsAll (c := { c with stopping := true }) sound.own t mem).2 (List.mem_finRange _))
  unfold stops
  generalize (List.finRange n).foldl clearTimer { c with stopping := true } = next at only cleared
  have held : ∀ i, next.ticks.countP (Tick.holds i) = if (next.states i).inFlight then 1 else 0 := by
    intro i
    rw [only.ticks,only.inFlight]
    exact sound.held i
  have running : ∀ t ∈ next.ticks, t.phase = .running → (next.states t.sweep).running = some t.id := by
    intro t mem runs
    rw [only.runs]
    exact sound.running t (only.ticks ▸ mem) runs
  simp only
  split
  · exact {
      own := fun t mem => by rw [cleared] at mem; cases mem
      single := by rw [cleared]; exact .nil
      armed := fun started => by cases started
      idle := fun _ => cleared
      held := held
      running := running
      waiting := fun _ => only.stopping
      awaits := fun a is => sound.awaits a (only.stop ▸ is) |> fun all t mem => all t (only.ticks ▸ mem) }
  · exact {
      own := fun t mem => by rw [cleared] at mem; cases mem
      single := by rw [cleared]; exact .nil
      armed := fun _ going => by rw [only.stopping] at going; cases going
      idle := fun _ => cleared
      held := held
      running := running
      waiting := fun _ => only.stopping
      awaits := fun a is t mem runs => by
        cases is
        exact List.mem_filterMap.mpr ⟨t.sweep,List.mem_finRange _,running t mem runs⟩ }

theorem countErased {t : Tick n} {l : List (Tick n)} (mem : t ∈ l) (p : Tick n → Bool) :
    l.countP p = (l.erase t).countP p + if p t then 1 else 0 := by
  rw [(List.perm_cons_erase mem).countP_eq p,List.countP_cons]

theorem movedRunning {t : Tick n} {phase : Phase} (left : phase ≠ .running) : ∀ u ∈ (c.moved t phase).ticks,
    u.phase = .running → u ∈ c.ticks := by
  intro u mem runs
  rcases List.mem_append.mp mem with old | new
  · exact List.mem_of_mem_erase old
  · obtain rfl := List.mem_singleton.mp new
    exact absurd runs left

theorem movedCount {t : Tick n} (phase : Phase) (mem : t ∈ c.ticks) (i : Fin n) :
    (c.moved t phase).ticks.countP (Tick.holds i) + (if t.holds i then 1 else 0) =
      c.ticks.countP (Tick.holds i) + if { t with phase := phase }.holds i then 1 else 0 := by
  simp only [moved,List.countP_append,List.countP_singleton,countErased mem (Tick.holds i)]
  omega

def Quiet (c next : SweepScheduler n) : Prop :=
  ∀ i, { next.states i with lastSuccessAt := none, stallReported := false } =
    { c.states i with lastSuccessAt := none, stallReported := false }

theorem Quiet.timer (quiet : Quiet c next) (i : Fin n) : (next.states i).timer = (c.states i).timer := by
  have same := quiet i
  injection same

theorem Quiet.inFlight (quiet : Quiet c next) (i : Fin n) : (next.states i).inFlight = (c.states i).inFlight := by
  have same := quiet i
  injection same

theorem Quiet.runs (quiet : Quiet c next) (i : Fin n) : (next.states i).running = (c.states i).running := by
  have same := quiet i
  injection same

theorem withQuiet (i : Fin n) (success : Option Instant) (reported : Bool) :
    Quiet c (c.withState i (fun s => { s with lastSuccessAt := success, stallReported := reported })) := by
  intro j
  by_cases same : j = i
  · subst same
    rw [withStateSame]
  · rw [withStateOther same]

structure Around (c next : SweepScheduler n) : Prop where
  started : next.started = c.started
  stopping : next.stopping = c.stopping
  timers : next.timers = c.timers
  stop : next.stop = c.stop
  begun : next.begun = c.begun

theorem runEndsAround (c : SweepScheduler n) (t : Tick n) (outcome : Except String String) (now : Instant) :
    Around c (c.runEnds t outcome now) ∧ Quiet c (c.runEnds t outcome now) ∧
      (c.runEnds t outcome now).ticks = (c.moved t .settled).ticks := by
  cases outcome with
  | ok summary => exact ⟨⟨rfl,rfl,rfl,rfl,rfl⟩,withQuiet (c := c) t.sweep (some now) false,rfl⟩
  | error name => exact ⟨⟨rfl,rfl,rfl,rfl,rfl⟩,fun _ => rfl,rfl⟩

theorem checkAround (sweeps : Fin n → RegisteredSweep) (c : SweepScheduler n) (i : Fin n) (now : Instant) :
    Around c (c.checkStalled sweeps i now) ∧ Quiet c (c.checkStalled sweeps i now) ∧
      (c.checkStalled sweeps i now).ticks = c.ticks := by
  unfold checkStalled
  simp only
  split
  · exact ⟨⟨rfl,rfl,rfl,rfl,rfl⟩,fun _ => rfl,rfl⟩
  · split
    · refine ⟨⟨rfl,rfl,rfl,rfl,rfl⟩,fun j => ?_,rfl⟩
      show { (c.withState i (fun s => { s with stallReported := true })).states j with
        lastSuccessAt := none, stallReported := false } = _
      by_cases same : j = i
      · subst same
        rw [withStateSame]
      · rw [withStateOther same]
    · exact ⟨⟨rfl,rfl,rfl,rfl,rfl⟩,fun _ => rfl,rfl⟩

theorem heartbeatAround (sweeps : Fin n → RegisteredSweep) (c : SweepScheduler n) (t : Tick n)
    (written : Except String Instant) (now : Instant) :
    Around c (c.heartbeatEnds sweeps t written now) ∧ Quiet c (c.heartbeatEnds sweeps t written now) ∧
      (c.heartbeatEnds sweeps t written now).ticks = c.ticks.erase t := by
  unfold heartbeatEnds
  split
  all_goals
    obtain ⟨around,quiet,ticks⟩ := checkAround sweeps _ t.sweep now
    exact ⟨⟨around.started,around.stopping,around.timers,around.stop,around.begun⟩,quiet,ticks⟩

theorem soundAround (sound : Sound c) (around : Around c next) (timer : ∀ i, (next.states i).timer = (c.states i).timer)
    (held : ∀ i, next.ticks.countP (Tick.holds i) = if (next.states i).inFlight then 1 else 0)
    (running : ∀ t ∈ next.ticks, t.phase = .running → t ∈ c.ticks ∧ (next.states t.sweep).running = some t.id) :
    Sound next := {
  own := fun t mem => (timer t.sweep).trans (sound.own t (around.timers ▸ mem))
  single := around.timers ▸ sound.single
  armed := fun started going => around.timers ▸ sound.armed (around.started ▸ started) (around.stopping ▸ going)
  idle := fun idle => around.timers ▸ sound.idle (around.started ▸ around.stopping ▸ idle)
  held := held
  running := fun t mem runs => (running t mem runs).2
  waiting := fun waits => around.stopping ▸ sound.waiting (around.stop ▸ waits)
  awaits := fun a is t mem runs => sound.awaits a (around.stop ▸ is) t (running t mem runs).1 runs }

theorem runEndsSound {t : Tick n} {outcome : Except String String} {now : Instant} (sound : Sound c) (mem : t ∈ c.ticks)
    (phase : t.phase = .running) : Sound (c.runEnds t outcome now) := by
  obtain ⟨around,quiet,ticks⟩ := runEndsAround c t outcome now
  refine soundAround sound around quiet.timer (fun i => ?_) (fun u there runs => ?_)
  · rw [ticks,quiet.inFlight,← sound.held i]
    have count := movedCount .settled mem i
    simpa [Tick.holds,phase] using count
  · have old := movedRunning (by decide) u (ticks ▸ there) runs
    exact ⟨old,(quiet.runs _).trans (sound.running u old runs)⟩

theorem heartbeatSound {t : Tick n} {written : Except String Instant} {now : Instant} (sound : Sound c)
    (mem : t ∈ c.ticks) (phase : t.phase = .beating) : Sound (c.heartbeatEnds sweeps t written now) := by
  obtain ⟨around,quiet,ticks⟩ := heartbeatAround sweeps c t written now
  refine soundAround sound around quiet.timer (fun i => ?_) (fun u there runs => ?_)
  · rw [ticks,quiet.inFlight,← sound.held i,countErased mem (Tick.holds i)]
    simp [Tick.holds,phase]
  · have old := List.mem_of_mem_erase (ticks ▸ there)
    exact ⟨old,(quiet.runs _).trans (sound.running u old runs)⟩

theorem resumesSound {t : Tick n} (sound : Sound c) (mem : t ∈ c.ticks) (phase : t.phase = .settled) :
    Sound (c.resumes t) := by
  have holds : t.holds t.sweep = true := by simp [Tick.holds,phase]
  have one : c.ticks.countP (Tick.holds t.sweep) = 1 ∧ (c.states t.sweep).inFlight = true := by
    have some_ := List.countP_pos_iff.mpr ⟨t,mem,holds⟩
    have held := sound.held t.sweep
    split at held
    · exact ⟨held,by assumption⟩
    · omega
  have timer : ∀ i, ((c.resumes t).states i).timer = (c.states i).timer := by
    intro i
    show ((c.withState t.sweep (fun s => { s with inFlight := false, running := none })).states i).timer = _
    by_cases same : i = t.sweep
    · rw [same,withStateSame]
    · rw [withStateOther same]
  refine soundAround sound ⟨rfl,rfl,rfl,rfl,rfl⟩ timer (fun i => ?_) (fun u there runs => ?_)
  · have count := movedCount (c := c) .beating mem i
    show (c.moved t .beating).ticks.countP (Tick.holds i) =
      if ((c.withState t.sweep (fun s => { s with inFlight := false, running := none })).states i).inFlight then 1 else 0
    have gone : Tick.holds i { t with phase := .beating } = false := by simp [Tick.holds]
    by_cases same : i = t.sweep
    · rw [gone,same,holds,one.1] at count
      rw [same,withStateSame]
      simp only [Bool.false_eq_true,if_true,if_false] at count ⊢
      omega
    · have apart : t.holds i = false := by simp [Tick.holds,Ne.symm same]
      rw [gone,apart] at count
      rw [withStateOther same,← sound.held i]
      exact count
  · have old := movedRunning (by decide) u there runs
    have apart : u.sweep ≠ t.sweep := by
      intro same
      have both : (c.ticks.erase t).countP (Tick.holds t.sweep) = 0 := by
        have erased := countErased mem (Tick.holds t.sweep)
        rw [one.1,holds] at erased
        simpa using erased.symm
      rcases List.mem_append.mp there with rest | new
      · have none_ := List.countP_eq_zero.mp both u rest
        simp [Tick.holds,same,runs] at none_
      · obtain rfl := List.mem_singleton.mp new
        cases runs
    refine ⟨old,?_⟩
    show ((c.withState t.sweep (fun s => { s with inFlight := false, running := none })).states u.sweep).running = _
    rw [withStateOther apart]
    exact sound.running u old runs

theorem firesGoing {t : Timer n} (sound : Sound c) (mem : t ∈ c.timers) : c.started = true ∧ c.stopping = false := by
  have some_ : c.timers ≠ [] := List.ne_nil_of_mem mem
  exact ⟨by simpa using fun off => some_ (sound.idle (.inl off)),by simpa using fun off => some_ (sound.idle (.inr off))⟩

def rearmed (sweeps : Fin n → RegisteredSweep) (c : SweepScheduler n) (t : Timer n) : SweepScheduler n :=
  ({ c with timers := c.timers.erase t }.withState t.sweep (fun s => { s with timer := none })).arm t.sweep
    (sweeps t.sweep).cadenceMs

theorem rearmedOnly (sweeps : Fin n → RegisteredSweep) (c : SweepScheduler n) (t : Timer n) : TimersOnly c (rearmed sweeps c t) :=
  (⟨rfl,rfl,rfl,rfl,rfl,withTimer (c := { c with timers := c.timers.erase t }) t.sweep none⟩ :
    TimersOnly c ({ c with timers := c.timers.erase t }.withState t.sweep (fun s => { s with timer := none }))).trans
      (armOnly t.sweep _)

theorem rearmedTimers (sweeps : Fin n → RegisteredSweep) {t : Timer n} (sound : Sound c) (mem : t ∈ c.timers) :
    Owned (rearmed sweeps c t) ∧ ((rearmed sweeps c t).timers.map Timer.sweep).Perm (c.timers.map Timer.sweep) := by
  have sorted : (c.timers.map Timer.sweep).Perm (t.sweep :: (c.timers.erase t).map Timer.sweep) :=
    (List.perm_cons_erase mem).map Timer.sweep
  have fresh : t.sweep ∉ (c.timers.erase t).map Timer.sweep := (List.nodup_cons.mp (sorted.nodup_iff.mp sound.single)).1
  have owned : Owned ({ c with timers := c.timers.erase t }.withState t.sweep (fun s => { s with timer := none })) := by
    intro u there
    have other : u.sweep ≠ t.sweep := fun same => fresh (same ▸ List.mem_map_of_mem there)
    show ((c.withState t.sweep (fun s => { s with timer := none })).states u.sweep).timer = some u.id
    rw [withStateOther other]
    exact sound.own u (List.mem_of_mem_erase there)
  refine ⟨armOwned owned fresh,?_⟩
  have armed : (rearmed sweeps c t).timers.map Timer.sweep = (c.timers.erase t).map Timer.sweep ++ [t.sweep] :=
    armSweeps (c := { c with timers := c.timers.erase t }.withState t.sweep (fun s => { s with timer := none }))
      (firesGoing sound mem).2
  rw [armed]
  exact (List.perm_append_singleton _ _).trans sorted.symm

def skips (d : SweepScheduler n) (i : Fin n) : SweepScheduler n :=
  { d.logged (.skippedOverlap i) with ticks := d.ticks ++ [⟨d.drawn,i,.beating⟩], drawn := d.drawn + 1 }

def flagged (d : SweepScheduler n) (i : Fin n) : SweepScheduler n :=
  d.withState i (fun s => { s with inFlight := true, running := some d.drawn })

def begins (d : SweepScheduler n) (i : Fin n) : SweepScheduler n :=
  { flagged d i with ticks := d.ticks ++ [⟨d.drawn,i,.running⟩], drawn := d.drawn + 1, begun := d.begun ++ [i] }

theorem firesIs {t : Timer n} (going : c.stopping = false) : c.fires sweeps t =
    if ((rearmed sweeps c t).states t.sweep).inFlight then skips (rearmed sweeps c t) t.sweep
    else begins (rearmed sweeps c t) t.sweep := by
  have still : ({ c with timers := c.timers.erase t }.withState t.sweep (fun s => { s with timer := none })).stopping =
      false := going
  simp only [fires,tick,if_neg (Bool.eq_false_iff.mp still)]
  rfl

theorem rearmedSound {t : Timer n} (sound : Sound c) (mem : t ∈ c.timers) : Sound (rearmed sweeps c t) := by
  obtain ⟨started,going⟩ := firesGoing sound mem
  have only := rearmedOnly sweeps c t
  obtain ⟨owned,timers⟩ := rearmedTimers sweeps sound mem
  exact {
    own := owned
    single := timers.nodup_iff.mpr sound.single
    armed := fun _ _ i => timers.mem_iff.mpr (sound.armed started going i)
    idle := fun off => absurd off (by simp [only.started,only.stopping,started,going])
    held := fun i => by
      rw [only.ticks,only.inFlight]
      exact sound.held i
    running := fun u there runs => by
      rw [only.runs]
      exact sound.running u (only.ticks ▸ there) runs
    waiting := fun some_ => only.stopping ▸ sound.waiting (only.stop ▸ some_)
    awaits := fun a is u there runs => sound.awaits a (only.stop ▸ is) u (only.ticks ▸ there) runs }

theorem skipsSound {i : Fin n} (sound : Sound c) : Sound (skips c i) where
  own := sound.own
  single := sound.single
  armed := sound.armed
  idle := sound.idle
  held j := by
    show (c.ticks ++ [(⟨c.drawn,i,.beating⟩ : Tick n)]).countP (Tick.holds j) = if (c.states j).inFlight then 1 else 0
    rw [List.countP_append,sound.held j]
    simp [Tick.holds]
  running u there runs := by
    rcases List.mem_append.mp there with old | new
    · exact sound.running u old runs
    · obtain rfl := List.mem_singleton.mp new
      cases runs
  waiting := sound.waiting
  awaits a is u there runs := by
    rcases List.mem_append.mp there with old | new
    · exact sound.awaits a is u old runs
    · obtain rfl := List.mem_singleton.mp new
      cases runs

theorem beginsSound {i : Fin n} (sound : Sound c) (free : (c.states i).inFlight = false) (idle : c.stop = none) :
    Sound (begins c i) where
  own u there := by
    show ((flagged c i).states u.sweep).timer = some u.id
    unfold flagged
    by_cases same : u.sweep = i
    · rw [same,withStateSame]
      exact same ▸ sound.own u there
    · rw [withStateOther same]
      exact sound.own u there
  single := sound.single
  armed := sound.armed
  idle := sound.idle
  held j := by
    show (c.ticks ++ [(⟨c.drawn,i,.running⟩ : Tick n)]).countP (Tick.holds j) =
      if ((flagged c i).states j).inFlight then 1 else 0
    rw [List.countP_append,sound.held j,flagged]
    by_cases same : j = i
    · rw [same,withStateSame,free]
      simp [Tick.holds]
    · rw [withStateOther same]
      simp [Tick.holds,Ne.symm same]
  running u there runs := by
    show ((flagged c i).states u.sweep).running = some u.id
    unfold flagged
    rcases List.mem_append.mp there with old | new
    · have other : u.sweep ≠ i := by
        intro same
        have none_ := List.countP_eq_zero.mp ((sound.held i).trans (by simp [free])) u old
        simp [Tick.holds,same,runs] at none_
      rw [withStateOther other]
      exact sound.running u old runs
    · obtain rfl := List.mem_singleton.mp new
      rw [withStateSame]
  waiting := sound.waiting
  awaits a is := by simp [begins,flagged,withState,idle] at is

theorem firesSound {t : Timer n} (sound : Sound c) (mem : t ∈ c.timers) : Sound (c.fires sweeps t) := by
  obtain ⟨-,going⟩ := firesGoing sound mem
  have idle : c.stop = none := by
    cases stop : c.stop with
    | none => rfl
    | some a => exact absurd (sound.waiting (by simp [stop])) (by simp [going])
  have again : Sound (rearmed sweeps c t) := rearmedSound sound mem
  have waits := (rearmedOnly sweeps c t).stop.trans idle
  rw [firesIs going]
  split
  · exact skipsSound again
  · rename_i free
    exact beginsSound again (Bool.eq_false_iff.mpr free) waits

theorem stopReturnsSound {awaited : Awaited} {timedOut : Bool} (sound : Sound c) (is : c.stop = some awaited)
    (ok : c.stopReturns awaited timedOut = some next) : Sound next := by
  have none_ : c.timers = [] := sound.idle (.inr (sound.waiting (by simp [is])))
  have returned : Sound { c with started := false, stop := none } := {
    own := sound.own, single := sound.single, armed := fun off => by cases (off : false = true)
    idle := fun _ => none_,
    held := sound.held, running := sound.running
    waiting := fun off => by cases off
    awaits := fun _ is => by cases is }
  unfold stopReturns at ok
  simp only at ok
  split at ok
  · cases ok
    exact ⟨returned.own,returned.single,returned.armed,returned.idle,returned.held,returned.running,returned.waiting,
      returned.awaits⟩
  · split at ok
    · cases ok
    · cases ok
      exact returned

theorem stepSound {e : Event n} (sound : Sound c) (ok : step sweeps c e = some next) : Sound next := by
  cases e with
  | start jitterMs =>
    simp only [step] at ok
    split at ok <;> cases ok
    rename_i ready
    exact startsSound sound (by simpa using ready)
  | stop deadlineMs =>
    simp only [step] at ok
    split at ok <;> cases ok
    exact stopsSound sound
  | stopReturns timedOut =>
    obtain ⟨awaited,is,ok⟩ := Option.bind_eq_some_iff.mp ok
    exact stopReturnsSound sound is ok
  | fires t =>
    simp only [step] at ok
    split at ok <;> cases ok
    exact firesSound sound (by assumption)
  | runEnds t outcome now =>
    simp only [step] at ok
    split at ok <;> cases ok
    rename_i there
    exact runEndsSound sound there.1 there.2
  | resumes t =>
    simp only [step] at ok
    split at ok <;> cases ok
    rename_i there
    exact resumesSound sound there.1 there.2
  | heartbeatEnds t written now =>
    simp only [step] at ok
    split at ok <;> cases ok
    rename_i there
    exact heartbeatSound sound there.1 there.2

theorem initialSound : Sound (SweepScheduler.initial : SweepScheduler n) := {
  own := fun _ mem => by cases mem
  single := .nil
  armed := fun off => by cases off
  idle := fun _ => rfl
  held := fun _ => rfl
  running := fun _ mem => by cases mem
  waiting := fun off => by cases off
  awaits := fun _ is => by cases is }

theorem runSound {events : List (Event n)} (sound : Sound c) (ran : run (step sweeps) c events = some last) : Sound last :=
  runKeeps (fun _ _ _ (_ : True) sound ok => stepSound sound ok) sound (fun _ _ => trivial) ran

def Event.isStart : Event n → Bool
  | .start _ => true
  | _ => false

theorem stopsOnly {deadlineMs : Nat} : (c.stops deadlineMs).stopping = true ∧ (c.stops deadlineMs).begun = c.begun := by
  have only : TimersOnly { c with stopping := true } _ := foldOnly (fun _ => clearOnly) (List.finRange n)
  unfold stops
  generalize (List.finRange n).foldl clearTimer { c with stopping := true } = next at only
  simp only
  split <;> exact ⟨only.stopping,only.begun⟩

theorem stoppedStep {e : Event n} (sound : Sound c) (off : c.stopping = true) (other : e.isStart = false)
    (ok : step sweeps c e = some next) : next.stopping = true ∧ next.begun = c.begun := by
  cases e with
  | start jitterMs => cases other
  | stop deadlineMs =>
    simp only [step] at ok
    split at ok <;> cases ok
    exact stopsOnly
  | stopReturns timedOut =>
    obtain ⟨awaited,is,ok⟩ := Option.bind_eq_some_iff.mp ok
    unfold stopReturns at ok
    simp only at ok
    split at ok
    · cases ok
      exact ⟨off,rfl⟩
    · split at ok <;> cases ok
      exact ⟨off,rfl⟩
  | fires t =>
    simp only [step,sound.idle (.inr off)] at ok
    cases ok
  | runEnds t outcome now =>
    simp only [step] at ok
    split at ok <;> cases ok
    have around := (runEndsAround c t outcome now).1
    exact ⟨around.stopping.trans off,around.begun⟩
  | resumes t =>
    simp only [step] at ok
    split at ok <;> cases ok
    exact ⟨off,rfl⟩
  | heartbeatEnds t written now =>
    simp only [step] at ok
    split at ok <;> cases ok
    have around := (heartbeatAround sweeps c t written now).1
    exact ⟨around.stopping.trans off,around.begun⟩

theorem stoppedRun {events : List (Event n)} (sound : Sound c) (off : c.stopping = true)
    (none_ : ∀ e ∈ events, e.isStart = false) (ran : run (step sweeps) c events = some last) : last.begun = c.begun := by
  have keeps : ∀ d e next, e.isStart = false → (Sound d ∧ d.stopping = true ∧ d.begun = c.begun) →
      step sweeps d e = some next → Sound next ∧ next.stopping = true ∧ next.begun = c.begun := by
    intro d e next other kept ok
    have stepped := stoppedStep kept.1 kept.2.1 other ok
    exact ⟨stepSound kept.1 ok,stepped.1,stepped.2.trans kept.2.2⟩
  exact (runKeeps keeps ⟨sound,off,rfl⟩ none_ ran).2.2

def Similar (exactly : Prop) (s s' : SweepState) : Prop :=
  ({ s with lastSuccessAt := none, stallReported := false } : SweepState) =
    { s' with lastSuccessAt := none, stallReported := false } ∧ (exactly → s = s')

structure AlikeBut (i : Fin n) (c d : SweepScheduler n) : Prop where
  started : d.started = c.started
  stopping : d.stopping = c.stopping
  timers : d.timers = c.timers
  ticks : d.ticks = c.ticks
  stop : d.stop = c.stop
  drawn : d.drawn = c.drawn
  begun : d.begun = c.begun
  heartbeat : d.heartbeat = c.heartbeat
  states : ∀ j, Similar (j ≠ i) (c.states j) (d.states j)
  log : d.log.filter (fun line => line.sweep ≠ some i) = c.log.filter (fun line => line.sweep ≠ some i)

def Event.failing (i : Fin n) (name : String) : Event n → Event n
  | .runEnds t outcome now => .runEnds t (if t.sweep = i then .error name else outcome) now
  | e => e

section
variable {i : Fin n} {d : SweepScheduler n}

theorem Similar.fields {exactly : Prop} {s s' : SweepState} (similar : Similar exactly s s') :
    s'.timer = s.timer ∧ s'.inFlight = s.inFlight ∧ s'.running = s.running := by
  have same := similar.1
  injection same with timer inFlight _ _ running
  exact ⟨timer.symm,inFlight.symm,running.symm⟩

theorem AlikeBut.refl : AlikeBut i c c := ⟨rfl,rfl,rfl,rfl,rfl,rfl,rfl,rfl,fun _ => ⟨rfl,fun _ => rfl⟩,rfl⟩

theorem AlikeBut.symm (alike : AlikeBut i c d) : AlikeBut i d c :=
  ⟨alike.started.symm,alike.stopping.symm,alike.timers.symm,alike.ticks.symm,alike.stop.symm,alike.drawn.symm,
    alike.begun.symm,alike.heartbeat.symm,
    fun j => ⟨(alike.states j).1.symm,fun other => ((alike.states j).2 other).symm⟩,alike.log.symm⟩

theorem AlikeBut.trans {e : SweepScheduler n} (first : AlikeBut i c d) (second : AlikeBut i d e) : AlikeBut i c e :=
  ⟨second.started.trans first.started,second.stopping.trans first.stopping,second.timers.trans first.timers,
    second.ticks.trans first.ticks,second.stop.trans first.stop,second.drawn.trans first.drawn,
    second.begun.trans first.begun,second.heartbeat.trans first.heartbeat,
    fun j => ⟨(first.states j).1.trans (second.states j).1,
      fun other => ((first.states j).2 other).trans ((second.states j).2 other)⟩,second.log.trans first.log⟩

theorem AlikeBut.withState (alike : AlikeBut i c d) {j : Fin n} {f f' : SweepState → SweepState}
    (respects : Similar (j ≠ i) (f (c.states j)) (f' (d.states j))) : AlikeBut i (c.withState j f) (d.withState j f') := by
  refine ⟨alike.started,alike.stopping,alike.timers,alike.ticks,alike.stop,alike.drawn,alike.begun,alike.heartbeat,
    fun k => ?_,alike.log⟩
  by_cases same : k = j
  · subst same
    rw [withStateSame,withStateSame]
    exact respects
  · rw [withStateOther same,withStateOther same]
    exact alike.states k

theorem AlikeBut.logged (alike : AlikeBut i c d) (line : LogLine n) : AlikeBut i (c.logged line) (d.logged line) :=
  { alike with log := by simp only [SweepScheduler.logged,List.filter_append,alike.log] }

theorem AlikeBut.unlike (alike : AlikeBut i c d) {line line' : LogLine n} (own : line.sweep = some i)
    (own' : line'.sweep = some i) : AlikeBut i (c.logged line) (d.logged line') :=
  { alike with log := by simpa [SweepScheduler.logged,own,own'] using alike.log }

theorem AlikeBut.arm (alike : AlikeBut i c d) (j : Fin n) (delayMs : Nat) : AlikeBut i (c.arm j delayMs) (d.arm j delayMs) := by
  unfold SweepScheduler.arm
  rw [alike.stopping]
  split
  · exact alike
  · have set : AlikeBut i (c.withState j (fun s => { s with timer := some c.drawn }))
        (d.withState j (fun s => { s with timer := some d.drawn })) := by
      refine alike.withState ⟨?_,fun other => ?_⟩
      · have similar := (alike.states j).fields
        simp only [similar.2.1,similar.2.2,alike.drawn]
      · simp only [(alike.states j).2 other,alike.drawn]
    exact { set with
      timers := by simp only [alike.timers,alike.drawn]
      drawn := by simp only [alike.drawn] }

theorem AlikeBut.clear (alike : AlikeBut i c d) (j : Fin n) : AlikeBut i (c.clearTimer j) (d.clearTimer j) := by
  unfold clearTimer
  rw [(alike.states j).fields.1]
  cases timer : (c.states j).timer with
  | none => exact alike
  | some id =>
    have set : AlikeBut i (c.withState j (fun s => { s with timer := none })) (d.withState j (fun s => { s with timer := none })) := by
      refine alike.withState ⟨?_,fun other => ?_⟩
      · have similar := (alike.states j).fields
        simp only [similar.2.1,similar.2.2]
      · simp only [(alike.states j).2 other]
    exact { set with timers := by simp only [alike.timers] }

theorem AlikeBut.fold {f : SweepScheduler n → Fin n → SweepScheduler n} (alike : AlikeBut i c d)
    (keeps : ∀ c d j, AlikeBut i c d → AlikeBut i (f c j) (f d j)) (l : List (Fin n)) :
    AlikeBut i (l.foldl f c) (l.foldl f d) := by
  induction l generalizing c d with
  | nil => exact alike
  | cons j rest ih => exact ih (keeps c d j alike)

theorem startsAlike (alike : AlikeBut i c d) (jitterMs : Fin n → Nat) :
    AlikeBut i (c.starts sweeps jitterMs) (d.starts sweeps jitterMs) := by
  unfold starts
  rw [alike.started]
  split
  · exact alike
  · have going : AlikeBut i { c with started := true, stopping := false } { d with started := true, stopping := false } :=
      { alike with started := rfl, stopping := rfl }
    exact going.fold (fun c d j alike => (alike.logged (.scheduled j (sweeps j).cadenceSeconds)).arm j (jitterMs j))
      (List.finRange n)

theorem stopsAlike (alike : AlikeBut i c d) (deadlineMs : Nat) : AlikeBut i (c.stops deadlineMs) (d.stops deadlineMs) := by
  unfold stops
  have ending : AlikeBut i { c with stopping := true } { d with stopping := true } := { alike with stopping := rfl }
  have cleared := ending.fold (fun c d j alike => alike.clear j) (List.finRange n)
  generalize (List.finRange n).foldl clearTimer { c with stopping := true } = e at cleared
  generalize (List.finRange n).foldl clearTimer { d with stopping := true } = e' at cleared
  have running : (fun j => (e'.states j).running) = fun j => (e.states j).running :=
    funext (fun j => (cleared.states j).fields.2.2)
  simp only [running]
  split
  · exact { cleared with started := rfl }
  · exact { cleared with stop := rfl }

theorem stopReturnsAlike (alike : AlikeBut i c d) {awaited : Awaited} {timedOut : Bool}
    (ok : c.stopReturns awaited timedOut = some next) :
    ∃ next', d.stopReturns awaited timedOut = some next' ∧ AlikeBut i next next' := by
  have returned : AlikeBut i { c with started := false, ticks := d.ticks, stop := none }
      { d with started := false, stop := none } := { alike with started := rfl, ticks := rfl, stop := rfl }
  unfold stopReturns at ok ⊢
  rw [← alike.ticks] at ok
  simp only at ok ⊢
  split at ok
  · rename_i late
    cases ok
    exact ⟨_,if_pos late,returned.logged (.stopTimeout awaited.deadlineMs)⟩
  · rename_i done
    split at ok
    · cases ok
    · rename_i waits
      cases ok
      exact ⟨_,(if_neg done).trans (if_neg waits),returned⟩

theorem tickAlike (alike : AlikeBut i c d) (j : Fin n) : AlikeBut i (c.tick sweeps j) (d.tick sweeps j) := by
  unfold tick
  rw [alike.stopping]
  split
  · exact alike
  have armed := alike.arm j (sweeps j).cadenceMs
  generalize c.arm j (sweeps j).cadenceMs = e at armed
  generalize d.arm j (sweeps j).cadenceMs = e' at armed
  simp only [(armed.states j).fields.2.1,armed.ticks,armed.drawn,armed.begun]
  split
  · exact { armed.logged (.skippedOverlap j) with ticks := rfl, drawn := rfl }
  · have set : AlikeBut i (e.withState j (fun s => { s with inFlight := true, running := some e.drawn }))
        (e'.withState j (fun s => { s with inFlight := true, running := some e.drawn })) := by
      refine armed.withState ⟨?_,fun other => ?_⟩
      · have similar := (armed.states j).fields
        simp only [similar.1]
      · simp only [(armed.states j).2 other]
    exact { set with ticks := rfl, drawn := rfl, begun := rfl }

theorem firesAlike (alike : AlikeBut i c d) (t : Timer n) : AlikeBut i (c.fires sweeps t) (d.fires sweeps t) := by
  have erased : AlikeBut i { c with timers := c.timers.erase t } { d with timers := d.timers.erase t } :=
    { alike with timers := by simp only [alike.timers] }
  refine tickAlike (erased.withState ⟨?_,fun other => ?_⟩) t.sweep
  · have similar := (alike.states t.sweep).fields
    simp only [similar.2.1,similar.2.2]
  · simp only [(alike.states t.sweep).2 other]

theorem movedAlike (alike : AlikeBut i c d) (t : Tick n) (phase : Phase) : AlikeBut i (c.moved t phase) (d.moved t phase) :=
  { alike with ticks := by simp only [moved,alike.ticks] }

theorem runEndsAlike (alike : AlikeBut i c d) (t : Tick n) (outcome : Except String String) (name : String) (now : Instant) :
    AlikeBut i (c.runEnds t outcome now) (d.runEnds t (if t.sweep = i then .error name else outcome) now) := by
  have settled := movedAlike alike t .settled
  by_cases own : t.sweep = i
  · rw [if_pos own]
    cases outcome with
    | error e => exact settled.unlike (congrArg some own) (congrArg some own)
    | ok summary =>
      have changed : AlikeBut i ((c.moved t .settled).withState t.sweep
          (fun s => { s with lastSuccessAt := some now, stallReported := false })) (d.moved t .settled) := by
        refine { settled with states := fun j => ?_ }
        by_cases same : j = t.sweep
        · subst same
          rw [withStateSame]
          exact ⟨(settled.states t.sweep).1,fun other => absurd own other⟩
        · rw [withStateOther same]
          exact settled.states j
      exact changed.unlike (congrArg some own) (congrArg some own)
  · rw [if_neg own]
    cases outcome with
    | error e => exact settled.logged _
    | ok summary =>
      refine (settled.withState ⟨?_,fun other => ?_⟩).logged _
      · simp only [((settled.states t.sweep).2 own)]
      · simp only [((settled.states t.sweep).2 other)]

theorem checkOwn (now : Instant) : AlikeBut i c (c.checkStalled sweeps i now) := by
  obtain ⟨around,quiet,ticks⟩ := checkAround sweeps c i now
  have rest : ∀ j, j ≠ i → (c.checkStalled sweeps i now).states j = c.states j := by
    intro j other
    unfold checkStalled
    simp only
    split
    · rfl
    · split
      · show (c.withState i (fun s => { s with stallReported := true })).states j = _
        rw [withStateOther other]
      · rfl
  refine ⟨around.started,around.stopping,around.timers,ticks,around.stop,?_,around.begun,?_,
    fun j => ⟨(quiet j).symm,fun other => (rest j other).symm⟩,?_⟩
  all_goals
    unfold checkStalled
    simp only
    split
    · rfl
  · split <;> rfl
  · split <;> rfl
  · split
    · simp [SweepScheduler.logged,SweepScheduler.withState,LogLine.sweep]
    · rfl

theorem checkAlike (alike : AlikeBut i c d) (j : Fin n) (now : Instant) :
    AlikeBut i (c.checkStalled sweeps j now) (d.checkStalled sweeps j now) := by
  by_cases own : j = i
  · subst own
    exact (checkOwn now).symm.trans (alike.trans (checkOwn now))
  · unfold checkStalled
    rw [← (alike.states j).2 own]
    simp only
    split
    · exact alike
    · split
      · refine (alike.withState ⟨?_,fun other => ?_⟩).logged _
        · simp only [(alike.states j).2 own]
        · simp only [(alike.states j).2 own]
      · exact alike

theorem heartbeatAlike (alike : AlikeBut i c d) (t : Tick n) (written : Except String Instant) (now : Instant) :
    AlikeBut i (c.heartbeatEnds sweeps t written now) (d.heartbeatEnds sweeps t written now) := by
  have left : AlikeBut i { c with ticks := c.ticks.erase t } { d with ticks := d.ticks.erase t } :=
    { alike with ticks := by simp only [alike.ticks] }
  cases written with
  | error name => exact checkAlike (left.logged (.heartbeatWriteFailed name)) t.sweep now
  | ok time =>
    have beaten : AlikeBut i { { c with ticks := c.ticks.erase t } with heartbeat := some time }
        { { d with ticks := d.ticks.erase t } with heartbeat := some time } := { left with heartbeat := rfl }
    exact checkAlike beaten t.sweep now

theorem resumesAlike (alike : AlikeBut i c d) (t : Tick n) : AlikeBut i (c.resumes t) (d.resumes t) := by
  refine (movedAlike alike t .beating).withState ⟨?_,fun other => ?_⟩
  · have similar := (alike.states t.sweep).fields
    simp only [moved,similar.1]
  · simp only [moved,(alike.states t.sweep).2 other]

theorem stepAlike {name : String} {e : Event n} (alike : AlikeBut i c d) (ok : step sweeps c e = some next) :
    ∃ next', step sweeps d (e.failing i name) = some next' ∧ AlikeBut i next next' := by
  cases e with
  | start jitterMs =>
    simp only [step,Event.failing] at ok ⊢
    split at ok <;> cases ok
    rename_i ready
    exact ⟨_,if_neg (alike.stop ▸ ready),startsAlike alike jitterMs⟩
  | stop deadlineMs =>
    simp only [step,Event.failing] at ok ⊢
    split at ok <;> cases ok
    rename_i ready
    exact ⟨_,if_neg (alike.stop ▸ ready),stopsAlike alike deadlineMs⟩
  | stopReturns timedOut =>
    obtain ⟨awaited,is,ok⟩ := Option.bind_eq_some_iff.mp ok
    obtain ⟨next',ok',same⟩ := stopReturnsAlike alike ok
    exact ⟨next',Option.bind_eq_some_iff.mpr ⟨awaited,alike.stop.trans is,ok'⟩,same⟩
  | fires t =>
    simp only [step,Event.failing] at ok ⊢
    split at ok <;> cases ok
    rename_i there
    exact ⟨_,if_pos (alike.timers ▸ there),firesAlike alike t⟩
  | runEnds t outcome now =>
    simp only [step,Event.failing] at ok ⊢
    split at ok <;> cases ok
    rename_i there
    exact ⟨_,if_pos (alike.ticks ▸ there),runEndsAlike alike t outcome name now⟩
  | resumes t =>
    simp only [step,Event.failing] at ok ⊢
    split at ok <;> cases ok
    rename_i there
    exact ⟨_,if_pos (alike.ticks ▸ there),resumesAlike alike t⟩
  | heartbeatEnds t written now =>
    simp only [step,Event.failing] at ok ⊢
    split at ok <;> cases ok
    rename_i there
    exact ⟨_,if_pos (alike.ticks ▸ there),heartbeatAlike alike t written now⟩

end
/- Of every sweep one run at a time and one timer, which is there until a stop; no run from a
stop to the next start; and a failing run leaves all but the record of its own sweep. -/
theorem sweepsApart (sweeps : Fin n → RegisteredSweep) (events : List (Event n)) (c : SweepScheduler n)
    (ran : run (step sweeps) .initial events = some c) :
    (∀ i, c.ticks.countP (fun t => t.sweep = i ∧ t.phase = .running) ≤ 1 ∧
      c.timers.countP (fun t => t.sweep = i) ≤ 1) ∧
    (c.started = true → c.stopping = false → ∀ i, c.timers.countP (fun t => t.sweep = i) = 1) ∧
    (∀ i name, ∃ d, run (step sweeps) .initial (events.map (Event.failing i name)) = some d ∧ AlikeBut i c d) ∧
    ∀ deadlineMs stopped between last, step sweeps c (.stop deadlineMs) = some stopped →
      (∀ e ∈ between, e.isStart = false) → run (step sweeps) stopped between = some last → last.begun = c.begun := by
  have sound := runSound initialSound ran
  have timers : ∀ i, c.timers.countP (fun t => t.sweep = i) = (c.timers.map Timer.sweep).count i := by
    intro i
    rw [List.count,List.countP_map]
    exact List.countP_congr (fun t _ => by simp)
  refine ⟨fun i => ⟨?_,?_⟩,fun started going i => ?_,fun i name => ?_,fun deadlineMs stopped between last halts none_ later => ?_⟩
  · have held := sound.held i
    have fewer : c.ticks.countP (fun t => t.sweep = i ∧ t.phase = .running) ≤ c.ticks.countP (Tick.holds i) :=
      List.countP_mono_left (fun t _ is => by simp_all [Tick.holds])
    split at held <;> omega
  · rw [timers]
    exact List.nodup_iff_count_le_one.mp sound.single i
  · rw [timers]
    exact List.count_eq_one_of_mem sound.single (sound.armed started going i)
  · exact runFollows (fun _ _ _ _ alike ok => stepAlike alike ok) .refl ran
  · have off : stopped.stopping = true ∧ stopped.begun = c.begun := by
      simp only [step] at halts
      split at halts <;> cases halts
      exact stopsOnly
    exact (stoppedRun (stepSound sound halts) off.1 none_ later).trans off.2

def purge : Fin 1 := 0

def outlives : List (Event 1) := [.start (fun _ => 0),.fires ⟨0,purge,0⟩]

theorem outlivesApart : ∃ c stopped last, run (step (fun _ => ⟨"purge",60⟩)) .initial outlives = some c ∧
    step (fun _ => ⟨"purge",60⟩) c (.stop 0) = some stopped ∧
    run (step (fun _ => ⟨"purge",60⟩)) stopped [.stopReturns true,.runEnds ⟨2,0,.running⟩ (.error "Error") 5] = some last ∧
    last.begun = c.begun ∧ ∀ i, c.timers.countP (fun t => t.sweep = i) ≤ 1 := by
  have some_ : ((run (step (fun _ => ⟨"purge",60⟩)) .initial outlives).bind (fun c =>
      (step (fun _ => ⟨"purge",60⟩) c (.stop 0)).bind (fun stopped => run (step (fun _ => ⟨"purge",60⟩)) stopped
        [.stopReturns true,.runEnds ⟨2,0,.running⟩ (.error "Error") 5]))).isSome = true := by decide +kernel
  obtain ⟨last,some_⟩ := Option.isSome_iff_exists.mp some_
  obtain ⟨c,ran,some_⟩ := Option.bind_eq_some_iff.mp some_
  obtain ⟨stopped,halts,later⟩ := Option.bind_eq_some_iff.mp some_
  have apart := sweepsApart (fun _ => ⟨"purge",60⟩) outlives c ran
  exact ⟨c,stopped,last,ran,halts,later,apart.2.2.2 0 stopped _ last halts (by simp [Event.isStart]) later,
    fun i => (apart.1 i).2⟩

end FamilyPlatform.Worker
