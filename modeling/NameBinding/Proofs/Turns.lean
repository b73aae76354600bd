import NameBinding.Proofs.Registry
import NameBinding.Proofs.Workers
import Mathlib.Algebra.Ring.Nat
import Mathlib.Data.List.Pairwise

/-!
The account of the turns. Every turn that does not pass does one thing to one job: a worker
takes its index from the counter, works on it, or stores its result. The indices are taken one
after the other, a job is worked on by the one who took it and stored by the one who worked on
it, so that no order of turns has a job done twice. An account comes to its full length exactly
when all workers have stopped, and then each job is stored in its own slot.
-/

namespace NameBinding

/-- What a turn that does not pass does, and who does it. -/
inductive Event where
  | fetched (worker index : Nat)
  | worked (worker slot : Nat)
  | stored (worker slot : Nat)
deriving DecidableEq, Repr

namespace Event

def fetched? : Event → Option Nat
  | fetched _ index => some index
  | worked _ _ | stored _ _ => none

def worked? : Event → Option Nat
  | worked _ slot => some slot
  | fetched _ _ | stored _ _ => none

def stored? : Event → Option Nat
  | stored _ slot => some slot
  | fetched _ _ | worked _ _ => none

end Event

namespace Workers

variable {α β : Type} {work : α → β} {jobs : List α} {workers : Workers α β}

/-- What the turn does; nothing if it passes. -/
def event? (workers : Workers α β) (turn : Nat) : Option Event :=
  match workers.phases[turn]? with
  | none | some .stopped => none
  | some .idle => some (.fetched turn workers.next)
  | some (.claimed slot _) => some (.worked turn slot)
  | some (.finished slot _) => some (.stored turn slot)

/-- What is done along a schedule, in this order. -/
def events (work : α → β) (jobs : List α) : Workers α β → List Nat → List Event
  | _, [] => []
  | workers, turn :: schedule =>
    (workers.event? turn).toList ++ events work jobs (workers.step work jobs turn) schedule

/-- The indices are taken off the counter one after the other. -/
theorem range_next_step (work : α → β) (jobs : List α) (workers : Workers α β) (turn : Nat) :
    List.range (workers.step work jobs turn).next =
      List.range workers.next ++ (workers.event? turn).toList.filterMap Event.fetched? := by
  rcases step_cases work jobs workers turn with ⟨hphase | hphase, heq⟩ |
    ⟨hphase, first, -, heq⟩ | ⟨hphase, -, heq⟩ | ⟨slot, job, hphase, heq⟩ |
    ⟨slot, result, hphase, heq⟩
  all_goals
    rw [heq]
    simp [event?, hphase, Event.fetched?, List.range_succ]

theorem range_next_run (work : α → β) (jobs : List α) (workers : Workers α β)
    (schedule : List Nat) :
    List.range (workers.run work jobs schedule).next =
      List.range workers.next ++
        (workers.events work jobs schedule).filterMap Event.fetched? := by
  induction schedule generalizing workers with
  | nil => exact (List.append_nil _).symm
  | cons turn schedule ih =>
      calc List.range ((workers.step work jobs turn).run work jobs schedule).next
          = List.range (workers.step work jobs turn).next ++
              (events work jobs (workers.step work jobs turn) schedule).filterMap
                Event.fetched? := ih _
        _ = List.range workers.next ++
              (events work jobs workers (turn :: schedule)).filterMap Event.fetched? := by
            rw [range_next_step, events, List.filterMap_append, List.append_assoc]

/-- Only slots of the jobs are worked on, and stored in. -/
theorem Sound.slot_lt_of_mem_events (h : Sound work jobs workers) {schedule : List Nat}
    {event : Event} (hevent : event ∈ workers.events work jobs schedule) {slot : Nat}
    (hslot : event.worked? = some slot ∨ event.stored? = some slot) : slot < jobs.length := by
  induction schedule generalizing workers with
  | nil => cases hevent
  | cons turn schedule ih =>
      rcases List.mem_append.mp hevent with hnow | hlater
      · have hinside {job : α} (hjob : jobs[slot]? = some job) : slot < jobs.length :=
          (List.getElem?_eq_some_iff.mp hjob).1
        rw [Option.mem_toList, event?] at hnow
        split at hnow
        · cases hnow
        · cases hnow
        · cases hnow
          rcases hslot with hslot | hslot <;> cases hslot
        · next job hphase =>
          cases hnow
          rcases hslot with hslot | hslot <;> cases hslot
          exact hinside (h.claimed turn _ job hphase)
        · next result hphase =>
          cases hnow
          rcases hslot with hslot | hslot <;> cases hslot
          obtain ⟨job, hjob, -⟩ := h.finished turn _ result hphase
          exact hinside hjob
      · exact ih (h.step turn) hlater

theorem length_phases_run (work : α → β) (jobs : List α) (workers : Workers α β)
    (schedule : List Nat) :
    (workers.run work jobs schedule).phases.length = workers.phases.length := by
  induction schedule generalizing workers with
  | nil => rfl
  | cons turn schedule ih =>
      refine (ih (workers.step work jobs turn)).trans ?_
      rcases step_cases work jobs workers turn with ⟨-, heq⟩ | ⟨-, first, -, heq⟩ |
        ⟨-, -, heq⟩ | ⟨slot, job, -, heq⟩ | ⟨slot, result, -, heq⟩
      all_goals simp [heq]

/-- The sum of what the workers' phases count for. -/
def stock (value : Phase α β → Nat) (workers : Workers α β) : Nat :=
  (workers.phases.map value).sum

theorem sum_map_set {phases : List (Phase α β)} {turn : Nat} {old : Phase α β}
    (value : Phase α β → Nat) (h : phases[turn]? = some old) (new : Phase α β) :
    ((phases.set turn new).map value).sum + value old = (phases.map value).sum + value new := by
  induction phases generalizing turn with
  | nil => cases h
  | cons first rest ih =>
      cases turn with
      | zero =>
          obtain rfl := Option.some.inj h
          simp only [List.set_cons_zero, List.map_cons, List.sum_cons]
          omega
      | succ turn =>
          have hrest := ih h
          simp only [List.set_cons_succ, List.map_cons, List.sum_cons]
          omega

theorem stock_start (value : Phase α β → Nat) (jobs : List α) (count : Nat) :
    (start jobs count : Workers α β).stock value = count * value .idle := by
  simp [stock, start]

/-- No turn changes what is in stock but by what it takes in and pays out. -/
def Balanced (work : α → β) (jobs : List α) (gain spend : Event → Nat)
    (stock : Workers α β → Nat) : Prop :=
  ∀ workers turn,
    stock workers + ((workers.event? turn).toList.map gain).sum =
      stock (workers.step work jobs turn) + ((workers.event? turn).toList.map spend).sum

section Balanced

variable {gain spend : Event → Nat}

theorem Balanced.run {stock : Workers α β → Nat} (h : Balanced work jobs gain spend stock)
    (workers : Workers α β) (schedule : List Nat) :
    stock workers + ((workers.events work jobs schedule).map gain).sum =
      stock (workers.run work jobs schedule) +
        ((workers.events work jobs schedule).map spend).sum := by
  induction schedule generalizing workers with
  | nil => rfl
  | cons turn schedule ih =>
      have hturn := h workers turn
      have hrest := ih (workers.step work jobs turn)
      rw [events, List.map_append, List.map_append, List.sum_append, List.sum_append]
      rw [show workers.run work jobs (turn :: schedule) =
        (workers.step work jobs turn).run work jobs schedule from rfl]
      omega

/-- What the counter and the phases stand for is balanced if each kind of turn is. -/
theorem balanced_of_turns (reserve : Nat → Nat) {value : Phase α β → Nat}
    (hclaim : ∀ turn next job, jobs[next]? = some job →
      reserve next + value .idle + gain (.fetched turn next) =
        reserve (next + 1) + value (.claimed next job) + spend (.fetched turn next))
    (hstop : ∀ turn next, jobs.length ≤ next →
      reserve next + value .idle + gain (.fetched turn next) =
        reserve (next + 1) + value .stopped + spend (.fetched turn next))
    (hfinish : ∀ turn slot job, value (.claimed slot job) + gain (.worked turn slot) =
      value (.finished slot (work job)) + spend (.worked turn slot))
    (hstore : ∀ turn slot result, value (.finished slot result) + gain (.stored turn slot) =
      value .idle + spend (.stored turn slot)) :
    Balanced work jobs gain spend fun workers => reserve workers.next + workers.stock value := by
  intro workers turn
  rcases step_cases work jobs workers turn with ⟨hphase | hphase, heq⟩ |
    ⟨hphase, job, hjob, heq⟩ | ⟨hphase, hnone, heq⟩ | ⟨slot, job, hphase, heq⟩ |
    ⟨slot, result, hphase, heq⟩
  · simp [heq, event?, hphase]
  · simp [heq, event?, hphase]
  · have hturn := hclaim turn workers.next job hjob
    have hset := sum_map_set value hphase (.claimed workers.next job)
    simp only [heq, event?, hphase, stock, Option.toList_some, List.map_singleton,
      List.sum_singleton]
    omega
  · have hturn := hstop turn workers.next hnone
    have hset := sum_map_set value hphase .stopped
    simp only [heq, event?, hphase, stock, Option.toList_some, List.map_singleton,
      List.sum_singleton]
    omega
  · have hturn := hfinish turn slot job
    have hset := sum_map_set value hphase (.finished slot (work job))
    simp only [heq, event?, hphase, stock, Option.toList_some, List.map_singleton,
      List.sum_singleton]
    omega
  · have hturn := hstore turn slot result
    have hset := sum_map_set value hphase .idle
    simp only [heq, event?, hphase, stock, Option.toList_some, List.map_singleton,
      List.sum_singleton]
    omega

end Balanced

/-- One for a thing that is about the slot. -/
def hits (slot : Nat) (about : Option Nat) : Nat := if about = some slot then 1 else 0

theorem sum_hits (slot : Nat) (about : Event → Option Nat) (events : List Event) :
    (events.map fun event => hits slot (about event)).sum =
      (events.filterMap about).count slot := by
  induction events with
  | nil => rfl
  | cons first rest ih =>
      rw [List.map_cons, List.sum_cons, ih, List.filterMap_cons]
      cases habout : about first with
      | none => simp [hits]
      | some other =>
          by_cases hother : other = slot
          · simp [hits, hother, Nat.add_comm]
          · simp [hits, hother]

def claimedSlot? : Phase α β → Option Nat
  | .claimed slot _ => some slot
  | .idle | .finished _ _ | .stopped => none

def finishedSlot? : Phase α β → Option Nat
  | .finished slot _ => some slot
  | .idle | .claimed _ _ | .stopped => none

/-- What was fetched was worked on, or somebody is about to work on it. -/
theorem count_fetched (work : α → β) {jobs : List α} (workers : Workers α β)
    (schedule : List Nat) {slot : Nat} (h : slot < jobs.length) :
    workers.stock (fun phase => hits slot (claimedSlot? phase)) +
        ((workers.events work jobs schedule).filterMap Event.fetched?).count slot =
      (workers.run work jobs schedule).stock (fun phase => hits slot (claimedSlot? phase)) +
        ((workers.events work jobs schedule).filterMap Event.worked?).count slot := by
  have hbalanced : Balanced work jobs (fun event => hits slot event.fetched?)
      (fun event => hits slot event.worked?)
      fun workers => 0 + workers.stock fun phase => hits slot (claimedSlot? phase) := by
    refine balanced_of_turns (fun _ => 0) ?_ ?_ ?_ ?_
    · intros
      simp [hits, claimedSlot?, Event.fetched?, Event.worked?]
    · intro turn next hnone
      have hother : next ≠ slot := by omega
      simp [hits, claimedSlot?, Event.fetched?, Event.worked?, hother]
    · intros
      simp [hits, claimedSlot?, Event.fetched?, Event.worked?]
    · intros
      simp [hits, claimedSlot?, Event.fetched?, Event.worked?]
  have hrun := hbalanced.run workers schedule
  simpa only [Nat.zero_add, sum_hits] using hrun

/-- What was worked on was stored, or somebody is about to store it. -/
theorem count_worked (work : α → β) (jobs : List α) (workers : Workers α β)
    (schedule : List Nat) (slot : Nat) :
    workers.stock (fun phase => hits slot (finishedSlot? phase)) +
        ((workers.events work jobs schedule).filterMap Event.worked?).count slot =
      (workers.run work jobs schedule).stock (fun phase => hits slot (finishedSlot? phase)) +
        ((workers.events work jobs schedule).filterMap Event.stored?).count slot := by
  have hbalanced : Balanced work jobs (fun event => hits slot event.worked?)
      (fun event => hits slot event.stored?)
      fun workers => 0 + workers.stock fun phase => hits slot (finishedSlot? phase) := by
    refine balanced_of_turns (fun _ => 0) ?_ ?_ ?_ ?_ <;> intros <;>
      simp [hits, finishedSlot?, Event.worked?, Event.stored?]
  have hrun := hbalanced.run workers schedule
  simpa only [Nat.zero_add, sum_hits] using hrun

/-- The turns that a worker has still to take, with the job it has in hand. -/
def turnsLeft : Phase α β → Nat
  | .idle => 1
  | .claimed _ _ => 3
  | .finished _ _ => 2
  | .stopped => 0

theorem length_events (work : α → β) (jobs : List α) (workers : Workers α β)
    (schedule : List Nat) :
    3 * (jobs.length - workers.next) + workers.stock turnsLeft =
      3 * (jobs.length - (workers.run work jobs schedule).next) +
        (workers.run work jobs schedule).stock turnsLeft +
          (workers.events work jobs schedule).length := by
  have hbalanced : Balanced work jobs (fun _ => 0) (fun _ => 1)
      fun workers => 3 * (jobs.length - workers.next) + workers.stock turnsLeft := by
    refine balanced_of_turns (fun next => 3 * (jobs.length - next)) ?_ ?_ ?_ ?_
    · intro turn next job hjob
      have hinside := (List.getElem?_eq_some_iff.mp hjob).1
      simp only [turnsLeft]
      omega
    · intro turn next hnone
      simp only [turnsLeft]
      omega
    · intros
      rfl
    · intros
      rfl
  have hrun := hbalanced.run workers schedule
  simpa using hrun

theorem stock_turnsLeft_eq_zero_iff {workers : Workers α β} :
    workers.stock turnsLeft = 0 ↔ ∀ phase ∈ workers.phases, phase = .stopped := by
  rw [stock, List.sum_eq_zero_iff_forall_eq_nat, List.forall_mem_map]
  refine forall₂_congr fun phase _ => ?_
  cases phase <;> simp [turnsLeft]

section Start

variable (work : α → β) (jobs : List α) (count : Nat) (schedule : List Nat)

theorem fetched_events :
    ((start jobs count).events work jobs schedule).filterMap Event.fetched? =
      List.range ((start jobs count).run work jobs schedule).next := by
  rw [range_next_run]
  rfl

/-- Whoever takes an index takes it from all the others. -/
theorem fetched_once {first second index : Nat}
    (hfirst : .fetched first index ∈ (start jobs count).events work jobs schedule)
    (hsecond : .fetched second index ∈ (start jobs count).events work jobs schedule) :
    first = second := by
  have hnodup : (((start jobs count).events work jobs schedule).filterMap
      Event.fetched?).Nodup := by
    rw [fetched_events]
    exact List.nodup_range
  rw [List.Nodup, List.pairwise_filterMap] at hnodup
  have hsymm : Std.Symm fun event other : Event =>
      ∀ i, event.fetched? = some i → ∀ j, other.fetched? = some j → i ≠ j :=
    ⟨fun _ _ h i hi j hj => (h j hj i hi).symm⟩
  by_contra hother
  refine hnodup.forall hfirst hsecond ?_ index rfl index rfl rfl
  intro hsame
  exact hother (Event.fetched.inj hsame).1

theorem phases_run_start_ne_nil (hcount : 0 < count) :
    ((start jobs count).run work jobs schedule).phases ≠ [] := by
  have hlength := length_phases_run work jobs (start jobs count) schedule
  intro hnone
  rw [hnone, start, List.length_replicate] at hlength
  exact absurd hlength (Nat.ne_of_lt hcount)

theorem length_events_start :
    3 * jobs.length + count =
      3 * (jobs.length - ((start jobs count).run work jobs schedule).next) +
        ((start jobs count).run work jobs schedule).stock turnsLeft +
          ((start jobs count).events work jobs schedule).length := by
  have hlength := length_events work jobs (start jobs count) schedule
  rw [stock_start] at hlength
  simpa [start, turnsLeft] using hlength

theorem length_events_le :
    ((start jobs count).events work jobs schedule).length ≤ 3 * jobs.length + count := by
  rw [length_events_start work jobs count schedule]
  exact Nat.le_add_left _ _

/-- Once all have stopped, no index of a job is left on the counter. -/
theorem length_le_next_of_stopped (hcount : 0 < count)
    (h : ∀ phase ∈ ((start jobs count).run work jobs schedule).phases, phase = .stopped) :
    jobs.length ≤ ((start jobs count).run work jobs schedule).next :=
  ((sound_start work jobs count).run schedule).length_le_next_of_stopped
    (phases_run_start_ne_nil work jobs count schedule hcount) h

/-- However the workers take their turns, they have only so many of them, and they have had
them all exactly when all have stopped. -/
theorem stopped_iff_length_events (hcount : 0 < count) :
    (∀ phase ∈ ((start jobs count).run work jobs schedule).phases, phase = .stopped) ↔
      ((start jobs count).events work jobs schedule).length = 3 * jobs.length + count := by
  have hlength := length_events_start work jobs count schedule
  constructor
  · intro h
    have hnext := length_le_next_of_stopped work jobs count schedule hcount h
    have hnone := stock_turnsLeft_eq_zero_iff.mpr h
    omega
  · intro h
    exact stock_turnsLeft_eq_zero_iff.mp (by omega)

/-- Once all have stopped, every job was fetched, worked on and stored one time. -/
theorem once_of_stopped (hcount : 0 < count)
    (h : ∀ phase ∈ ((start jobs count).run work jobs schedule).phases, phase = .stopped)
    {slot : Nat} (hslot : slot < jobs.length) :
    (((start jobs count).events work jobs schedule).filterMap Event.worked?).count slot = 1 ∧
      (((start jobs count).events work jobs schedule).filterMap Event.stored?).count slot = 1 := by
  have hnext := length_le_next_of_stopped work jobs count schedule hcount h
  have hstock (value : Phase α β → Nat) (hvalue : value .stopped = 0) :
      ((start jobs count).run work jobs schedule).stock value = 0 := by
    rw [stock, List.sum_eq_zero_iff_forall_eq_nat, List.forall_mem_map]
    intro phase hphase
    rw [h phase hphase, hvalue]
  have hworked := count_fetched work (start jobs count) schedule hslot
  have hstored := count_worked work jobs (start jobs count) schedule slot
  rw [stock_start, hstock _ rfl] at hworked hstored
  rw [fetched_events, List.count_range, if_pos (by omega)] at hworked
  simp [hits, claimedSlot?, finishedSlot?] at hworked hstored
  omega

end Start

end Workers

namespace SourceUnit

/-- However workers take turns at the units, no index goes to two of them, no result is stored
beyond the units, and nobody has a turn more than the units and the workers make for. They
have had all these turns exactly when all have stopped. By then each unit has been resolved
one time and its result stored one time, in the unit's own slot, as when they are resolved in
order. -/
theorem resolved_once (registry : Registry) (options : Options) (units : List SourceUnit)
    (count : Nat) (hcount : 0 < count) (schedule : List Nat) :
    let work := resolve registry options
    let workers : Workers SourceUnit ResolvedUnit := .start units count
    let final := workers.run work units schedule
    let events := workers.events work units schedule
    events.filterMap Event.fetched? = List.range final.next ∧
      (∀ first second index, .fetched first index ∈ events → .fetched second index ∈ events →
        first = second) ∧
      (∀ worker slot, .stored worker slot ∈ events → slot < units.length) ∧
      events.length ≤ 3 * units.length + count ∧
      ((∀ phase ∈ final.phases, phase = .stopped) ↔
        events.length = 3 * units.length + count) ∧
      ((∀ phase ∈ final.phases, phase = .stopped) →
        (∀ slot < units.length, (events.filterMap Event.worked?).count slot = 1 ∧
          (events.filterMap Event.stored?).count slot = 1) ∧
        final.slots = units.map (fun unit => some (resolve registry options unit)) ∧
        final.results = units.map (resolve registry options) ∧
        ∀ jobs, final.results = resolveAll registry options jobs units) := by
  intro work workers final events
  have hsound : Workers.Sound work units workers := Workers.sound_start work units count
  refine ⟨Workers.fetched_events work units count schedule,
    fun first second index => Workers.fetched_once work units count schedule,
    fun worker slot hstored => hsound.slot_lt_of_mem_events hstored (.inr rfl),
    Workers.length_events_le work units count schedule,
    Workers.stopped_iff_length_events work units count schedule hcount, ?_⟩
  intro hstopped
  have hworkers := Workers.phases_run_start_ne_nil work units count schedule hcount
  have hresults := (hsound.run schedule).results_of_stopped hworkers hstopped
  refine ⟨fun slot hslot => Workers.once_of_stopped work units count schedule hcount hstopped
    hslot, (hsound.run schedule).slots_of_stopped hworkers hstopped, hresults, fun jobs => ?_⟩
  rw [resolveAll_eq_map]
  exact hresults

/-- Two workers at two units, the one that comes second being the first to store. -/
theorem resolved_once_crosswise :
    let units : List SourceUnit :=
      [{ module := "Meet", references := [⟨["Triathlon", "swim"], .any, {}⟩] },
        { module := "Heat", imports := [⟨"Pentathlon", .everything, {}⟩] }]
    let work := resolve .sports {}
    let workers : Workers SourceUnit ResolvedUnit := .start units 2
    let schedule := [0, 1, 1, 0, 1, 0, 0, 1]
    0 < 2 ∧
      workers.events work units schedule =
        [.fetched 0 0, .fetched 1 1, .worked 1 1, .worked 0 0, .stored 1 1, .stored 0 0,
          .fetched 0 2, .fetched 1 3] ∧
      (∀ phase ∈ (workers.run work units schedule).phases, phase = .stopped) ∧
      (workers.run work units schedule).results = resolveAll .sports {} 1 units := by
  intro units work workers schedule
  obtain ⟨-, -, -, -, hend, hdone⟩ := resolved_once .sports {} units 2 (by decide) schedule
  have hstopped := hend.mpr (by decide)
  exact ⟨by decide, by decide, hstopped, (hdone hstopped).2.2.2 1⟩

end SourceUnit

end NameBinding
