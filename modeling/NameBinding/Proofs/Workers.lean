import NameBinding.Workers
import Mathlib.Data.List.Basic
import Mathlib.Logic.Function.Iterate

/-!
Work that is shared out. Whatever turns the workers take, a job below the counter is done or in
somebody's hands, so that all is done once nobody has anything left to do. Turns taken round by
round get there, three rounds for each job of a worker and one to find that none is left.
-/

namespace NameBinding

namespace Workers

variable {α β : Type} {work : α → β} {jobs : List α} {workers : Workers α β}

/-- The worker whose turn it is has this job, or its result, in hand. -/
def Holds (work : α → β) (workers : Workers α β) (turn slot : Nat) (job : α) : Prop :=
  workers.phases[turn]? = some (.claimed slot job) ∨
    workers.phases[turn]? = some (.finished slot (work job))

/-- What every turn keeps. Phases speak of the jobs of their slots, nobody has stopped while
jobs were left, and a job that was claimed is done or held. -/
structure Sound (work : α → β) (jobs : List α) (workers : Workers α β) : Prop where
  slots_length : workers.slots.length = jobs.length
  claimed (turn slot : Nat) (job : α) :
    workers.phases[turn]? = some (.claimed slot job) → jobs[slot]? = some job
  finished (turn slot : Nat) (result : β) :
    workers.phases[turn]? = some (.finished slot result) →
      ∃ job, jobs[slot]? = some job ∧ result = work job
  stopped (turn : Nat) : workers.phases[turn]? = some .stopped → jobs.length ≤ workers.next
  settled (slot : Nat) (job : α) : slot < workers.next → jobs[slot]? = some job →
    workers.slots[slot]? = some (some (work job)) ∨ ∃ turn, workers.Holds work turn slot job

theorem getElem?_set_phase {phases : List (Phase α β)} {turn : Nat} {old : Phase α β}
    (h : phases[turn]? = some old) (new : Phase α β) (other : Nat) :
    (phases.set turn new)[other]? = if turn = other then some new else phases[other]? := by
  obtain ⟨hturn, -⟩ := List.getElem?_eq_some_iff.mp h
  rw [List.getElem?_set, if_pos hturn]

/-- All that a turn can do. -/
theorem step_cases (work : α → β) (jobs : List α) (workers : Workers α β) (turn : Nat) :
    (workers.phases[turn]? = none ∨ workers.phases[turn]? = some .stopped) ∧
        workers.step work jobs turn = workers ∨
      workers.phases[turn]? = some .idle ∧
        (∃ job, jobs[workers.next]? = some job ∧ workers.step work jobs turn =
          { workers with
            next := workers.next + 1
            phases := workers.phases.set turn (.claimed workers.next job) }) ∨
      workers.phases[turn]? = some .idle ∧ jobs.length ≤ workers.next ∧
        workers.step work jobs turn =
          { workers with
            next := workers.next + 1
            phases := workers.phases.set turn .stopped } ∨
      (∃ slot job, workers.phases[turn]? = some (.claimed slot job) ∧
        workers.step work jobs turn =
          { workers with phases := workers.phases.set turn (.finished slot (work job)) }) ∨
      ∃ slot result, workers.phases[turn]? = some (.finished slot result) ∧
        workers.step work jobs turn =
          { workers with
            slots := workers.slots.set slot (some result)
            phases := workers.phases.set turn .idle } := by
  unfold step
  cases hphase : workers.phases[turn]? with
  | none => exact .inl ⟨.inl rfl, rfl⟩
  | some phase =>
      cases phase with
      | stopped => exact .inl ⟨.inr rfl, rfl⟩
      | claimed slot job => exact .inr (.inr (.inr (.inl ⟨slot, job, rfl, rfl⟩)))
      | finished slot result => exact .inr (.inr (.inr (.inr ⟨slot, result, rfl, rfl⟩)))
      | idle =>
          cases hjob : jobs[workers.next]? with
          | some job => exact .inr (.inl ⟨rfl, job, rfl, rfl⟩)
          | none =>
              have hnone := List.getElem?_eq_none_iff.mp hjob
              exact .inr (.inr (.inl ⟨rfl, hnone, rfl⟩))

theorem sound_start (work : α → β) (jobs : List α) (count : Nat) :
    Sound work jobs (start jobs count) := by
  have hidle (turn : Nat) (phase : Phase α β)
      (h : (start jobs count : Workers α β).phases[turn]? = some phase) : phase = .idle :=
    List.eq_of_mem_replicate (List.mem_of_getElem? h)
  refine ⟨List.length_replicate, ?_, ?_, ?_, ?_⟩
  · intro turn slot job h
    cases hidle turn _ h
  · intro turn slot result h
    cases hidle turn _ h
  · intro turn h
    cases hidle turn _ h
  · intro slot job h
    cases h

section Step

variable {turn : Nat} {old new : Phase α β} {next : Nat} {slots : List (Option β)}

/-- A turn leaves what the others hold in their hands. -/
theorem Holds.set {other slot : Nat} {job : α} (h : workers.Holds work other slot job)
    (hold : workers.phases[turn]? = some old) (hother : turn ≠ other) :
    (⟨next, workers.phases.set turn new, slots⟩ : Workers α β).Holds work other slot job := by
  unfold Holds
  rw [getElem?_set_phase hold, if_neg hother]
  exact h

/-- An idle worker holds nothing. -/
theorem Holds.set_of_idle {other slot : Nat} {job : α} (h : workers.Holds work other slot job)
    (hidle : workers.phases[turn]? = some .idle) :
    (⟨next, workers.phases.set turn new, slots⟩ : Workers α β).Holds work other slot job := by
  refine h.set hidle ?_
  rintro rfl
  simp [Holds, hidle] at h

/-- A turn that makes a new phase and lets the counter go on keeps what is kept if the phase
speaks of its job and every job below the counter stays settled. -/
theorem Sound.set (h : Sound work jobs workers) (hold : workers.phases[turn]? = some old)
    (hnext : workers.next ≤ next) (hslots : slots.length = jobs.length)
    (hclaimed : ∀ slot job, new = .claimed slot job → jobs[slot]? = some job)
    (hfinished : ∀ slot result, new = .finished slot result →
      ∃ job, jobs[slot]? = some job ∧ result = work job)
    (hstopped : new = .stopped → jobs.length ≤ next)
    (hsettled : ∀ slot job, slot < next → jobs[slot]? = some job →
      slots[slot]? = some (some (work job)) ∨
        ∃ other, (⟨next, workers.phases.set turn new, slots⟩ : Workers α β).Holds work other slot
          job) :
    Sound work jobs ⟨next, workers.phases.set turn new, slots⟩ := by
  have hphase (other : Nat) (phase : Phase α β)
      (hother : (workers.phases.set turn new)[other]? = some phase) :
      new = phase ∨ workers.phases[other]? = some phase := by
    rw [getElem?_set_phase hold] at hother
    split at hother
    · exact .inl (Option.some.inj hother)
    · exact .inr hother
  refine ⟨hslots, ?_, ?_, ?_, hsettled⟩
  · intro other slot job hother
    rcases hphase other _ hother with hnew | hkept
    · exact hclaimed slot job hnew
    · exact h.claimed other slot job hkept
  · intro other slot result hother
    rcases hphase other _ hother with hnew | hkept
    · exact hfinished slot result hnew
    · exact h.finished other slot result hkept
  · intro other hother
    rcases hphase other _ hother with hnew | hkept
    · exact hstopped hnew
    · exact Nat.le_trans (h.stopped other hkept) hnext

/-- An idle worker claims the job at the counter. -/
theorem Sound.claim (h : Sound work jobs workers) (hidle : workers.phases[turn]? = some .idle)
    {first : α} (hfirst : jobs[workers.next]? = some first) :
    Sound work jobs ⟨workers.next + 1, workers.phases.set turn (.claimed workers.next first),
      workers.slots⟩ := by
  refine h.set hidle (by omega) h.slots_length ?_ nofun nofun fun slot job hslot hjob => ?_
  · rintro slot job ⟨⟩
    exact hfirst
  · rcases Nat.lt_or_ge slot workers.next with hbelow | hlast
    · exact (h.settled slot job hbelow hjob).imp_right
        fun ⟨other, hother⟩ => ⟨other, hother.set_of_idle hidle⟩
    · obtain rfl : slot = workers.next := by omega
      obtain rfl := Option.some.inj (hfirst.symm.trans hjob)
      refine .inr ⟨turn, .inl ?_⟩
      rw [getElem?_set_phase hidle, if_pos rfl]

/-- An idle worker for whom there is no job stops. -/
theorem Sound.stop (h : Sound work jobs workers) (hidle : workers.phases[turn]? = some .idle)
    (hnone : jobs.length ≤ workers.next) :
    Sound work jobs ⟨workers.next + 1, workers.phases.set turn .stopped, workers.slots⟩ := by
  refine h.set hidle (by omega) h.slots_length nofun nofun (fun _ => by omega)
    fun slot job hslot hjob => ?_
  obtain ⟨hinside, -⟩ := List.getElem?_eq_some_iff.mp hjob
  exact (h.settled slot job (by omega) hjob).imp_right
    fun ⟨other, hother⟩ => ⟨other, hother.set_of_idle hidle⟩

/-- A worker works on the job that it has claimed. -/
theorem Sound.finish {held : Nat} {claimed : α} (h : Sound work jobs workers)
    (hclaimed : workers.phases[turn]? = some (.claimed held claimed)) :
    Sound work jobs ⟨workers.next, workers.phases.set turn (.finished held (work claimed)),
      workers.slots⟩ := by
  refine h.set hclaimed (by omega) h.slots_length nofun ?_ nofun fun slot job hslot hjob => ?_
  · rintro slot result ⟨⟩
    exact ⟨claimed, h.claimed turn held claimed hclaimed, rfl⟩
  · refine (h.settled slot job hslot hjob).imp_right fun ⟨other, hother⟩ => ⟨other, ?_⟩
    by_cases hturn : turn = other
    · -- The job that was in hand is the one just worked on.
      subst hturn
      obtain ⟨rfl, rfl⟩ : held = slot ∧ claimed = job := by simpa [Holds, hclaimed] using hother
      refine .inr ?_
      rw [getElem?_set_phase hclaimed, if_pos rfl]
    · exact hother.set hclaimed hturn

/-- A worker stores its result and is idle again. -/
theorem Sound.store {held : Nat} {result : β} (h : Sound work jobs workers)
    (hfinished : workers.phases[turn]? = some (.finished held result)) :
    Sound work jobs ⟨workers.next, workers.phases.set turn .idle,
      workers.slots.set held (some result)⟩ := by
  obtain ⟨worked, hworked, rfl⟩ := h.finished turn held result hfinished
  have hinside : held < workers.slots.length := by
    obtain ⟨hheld, -⟩ := List.getElem?_eq_some_iff.mp hworked
    rwa [h.slots_length]
  refine h.set hfinished (by omega) (by rw [List.length_set, h.slots_length]) nofun nofun nofun
    fun slot job hslot hjob => ?_
  by_cases hsame : held = slot
  · subst hsame
    obtain rfl := Option.some.inj (hworked.symm.trans hjob)
    exact .inl (List.getElem?_set_self hinside)
  · rw [List.getElem?_set_ne hsame]
    refine (h.settled slot job hslot hjob).imp_right fun ⟨other, hother⟩ => ⟨other, ?_⟩
    refine hother.set hfinished ?_
    rintro rfl
    have hheld : held = slot ∧ work worked = work job := by simpa [Holds, hfinished] using hother
    exact hsame hheld.1

end Step

theorem Sound.step (h : Sound work jobs workers) (turn : Nat) :
    Sound work jobs (workers.step work jobs turn) := by
  rcases step_cases work jobs workers turn with ⟨-, heq⟩ | ⟨hidle, first, hfirst, heq⟩ |
    ⟨hidle, hnone, heq⟩ | ⟨held, job, hclaimed, heq⟩ | ⟨held, result, hfinished, heq⟩
  · rwa [heq]
  · rw [heq]
    exact h.claim hidle hfirst
  · rw [heq]
    exact h.stop hidle hnone
  · rw [heq]
    exact h.finish hclaimed
  · rw [heq]
    exact h.store hfinished

theorem Sound.run (h : Sound work jobs workers) (schedule : List Nat) :
    Sound work jobs (workers.run work jobs schedule) := by
  induction schedule generalizing workers with
  | nil => exact h
  | cons turn schedule ih => exact ih (h.step turn)

section Stopped

variable (h : Sound work jobs workers) (hworkers : workers.phases ≠ [])
  (hstopped : ∀ phase ∈ workers.phases, phase = .stopped)

include h hworkers hstopped

theorem Sound.length_le_next_of_stopped : jobs.length ≤ workers.next := by
  obtain ⟨first, rest, hfirst⟩ := List.exists_cons_of_ne_nil hworkers
  refine h.stopped 0 ?_
  rw [hfirst, hstopped first (by rw [hfirst]; exact List.mem_cons_self)]
  rfl

/-- Once every worker has stopped, every job is done, and its result is in its slot. -/
theorem Sound.slots_of_stopped : workers.slots = jobs.map fun job => some (work job) := by
  have hnext := h.length_le_next_of_stopped hworkers hstopped
  refine List.ext_getElem? fun slot => ?_
  rw [List.getElem?_map]
  cases hjob : jobs[slot]? with
  | none =>
      rw [List.getElem?_eq_none_iff] at hjob
      rw [Option.map_none, List.getElem?_eq_none_iff, h.slots_length]
      exact hjob
  | some job =>
      obtain ⟨hslot, -⟩ := List.getElem?_eq_some_iff.mp hjob
      rcases h.settled slot job (by omega) hjob with hdone | ⟨turn, hheld⟩
      · exact hdone
      · -- A worker that holds a job has not stopped.
        rcases hheld with hheld | hheld
        · cases hstopped _ (List.mem_of_getElem? hheld)
        · cases hstopped _ (List.mem_of_getElem? hheld)

theorem Sound.results_of_stopped : workers.results = jobs.map work := by
  rw [results, h.slots_of_stopped hworkers hstopped, List.filterMap_map]
  simp

end Stopped

/-- A round, in which each of the first `count` workers has one turn. -/
def round (work : α → β) (jobs : List α) (count : Nat) (workers : Workers α β) : Workers α β :=
  workers.run work jobs (List.range count)

theorem run_roundRobin (jobs : List α) (workers : Workers α β) (length count : Nat) :
    workers.run work jobs (roundRobin length count) =
      (round work jobs count)^[3 * (length / count + 1) + 1] workers := by
  unfold roundRobin
  induction 3 * (length / count + 1) + 1 with
  | zero => rfl
  | succ rounds ih =>
      rw [Function.iterate_succ_apply', ← ih, List.range_succ, List.flatMap_append,
        List.flatMap_singleton]
      exact List.foldl_append

/-- Between two turns of a kind: everybody has stopped or is in the same phase, and at least
`claims` jobs are claimed, if there are so many. -/
structure Stage (work : α → β) (jobs : List α) (count claims : Nat) (stands : Phase α β → Prop)
    (workers : Workers α β) : Prop where
  sound : Sound work jobs workers
  length : workers.phases.length = count
  phases (phase : Phase α β) : phase ∈ workers.phases → phase = .stopped ∨ stands phase
  claims : min jobs.length claims ≤ workers.next

theorem step_of_stopped {turn : Nat} (h : workers.phases[turn]? = some .stopped) :
    workers.step work jobs turn = workers := by
  unfold step
  rw [h]

/-- A turn of the round takes a worker from one phase on to the next, and claims `gain` jobs. -/
def Advances (work : α → β) (jobs : List α) (claims gain : Nat) (before after : Phase α β → Prop) :
    Prop :=
  ∀ (workers : Workers α β) (turn : Nat) (old : Phase α β),
    min jobs.length claims ≤ workers.next → workers.phases[turn]? = some old → before old →
    ∃ new, (workers.step work jobs turn).phases = workers.phases.set turn new ∧
      (new = .stopped ∨ after new) ∧ (workers.step work jobs turn).next = workers.next + gain

/-- In the middle of a round: the workers below `turn` have had their turns. -/
structure Partway (work : α → β) (jobs : List α) (count claims gain : Nat)
    (before after : Phase α β → Prop) (turn : Nat) (workers : Workers α β) : Prop where
  sound : Sound work jobs workers
  length : workers.phases.length = count
  phases (other : Nat) (phase : Phase α β) : workers.phases[other]? = some phase →
    phase = .stopped ∨ other < turn ∧ after phase ∨ turn ≤ other ∧ before phase
  claims : min jobs.length (claims + gain * turn) ≤ workers.next

section Partway

variable {count claims gain turn : Nat} {before after : Phase α β → Prop}

theorem Stage.partway (h : Stage work jobs count claims before workers)
    (after : Phase α β → Prop) (gain : Nat) :
    Partway work jobs count claims gain before after 0 workers where
  sound := h.sound
  length := h.length
  phases other phase hphase := (h.phases phase (List.mem_of_getElem? hphase)).imp_right
    fun hbefore => .inr ⟨Nat.zero_le other, hbefore⟩
  claims := h.claims

theorem Partway.stage (h : Partway work jobs count claims gain before after count workers) :
    Stage work jobs count (claims + gain * count) after workers where
  sound := h.sound
  length := h.length
  phases phase hphase := by
    obtain ⟨other, hother, rfl⟩ := List.getElem_of_mem hphase
    have hinside : other < count := by rwa [← h.length]
    rcases h.phases other _ (List.getElem?_eq_getElem hother) with
      hstopped | ⟨-, hafter⟩ | ⟨hlater, -⟩
    · exact .inl hstopped
    · exact .inr hafter
    · omega
  claims := h.claims

/-- A worker that has stopped lets its turn pass; by then all the jobs are claimed. -/
theorem Partway.pass (h : Partway work jobs count claims gain before after turn workers)
    (hstopped : workers.phases[turn]? = some .stopped) :
    Partway work jobs count claims gain before after (turn + 1) workers := by
  have hall := h.sound.stopped turn hstopped
  refine ⟨h.sound, h.length, fun other phase hother => ?_, by omega⟩
  rcases h.phases other phase hother with hphase | ⟨hearlier, hphase⟩ | ⟨hlater, hphase⟩
  · exact .inl hphase
  · exact .inr (.inl ⟨by omega, hphase⟩)
  · rcases Nat.lt_or_ge turn other with hbeyond | hsame
    · exact .inr (.inr ⟨by omega, hphase⟩)
    · obtain rfl : other = turn := by omega
      exact .inl (Option.some.inj (hother.symm.trans hstopped))

theorem Partway.step (h : Partway work jobs count claims gain before after turn workers)
    (hturn : Advances work jobs claims gain before after) (hinside : turn < count) :
    Partway work jobs count claims gain before after (turn + 1) (workers.step work jobs turn) := by
  have hclaims := h.claims
  have hold := List.getElem?_eq_getElem (show turn < workers.phases.length by rwa [h.length])
  rcases h.phases turn _ hold with hstopped | ⟨hearlier, -⟩ | ⟨-, hbefore⟩
  · rw [hstopped] at hold
    rw [step_of_stopped hold]
    exact h.pass hold
  · omega
  · obtain ⟨new, hnew, hafter, hnext⟩ := hturn workers turn _ (by omega) hold hbefore
    have hgained : min jobs.length (claims + gain * (turn + 1)) ≤
        (workers.step work jobs turn).next := by
      rw [hnext, Nat.mul_succ]
      omega
    refine ⟨h.sound.step turn, ?_, fun other phase hother => ?_, hgained⟩
    · rw [hnew, List.length_set, h.length]
    rw [hnew, getElem?_set_phase hold] at hother
    split at hother
    · obtain rfl := Option.some.inj hother
      exact hafter.imp_right fun hafter => .inl ⟨by omega, hafter⟩
    · rcases h.phases other phase hother with hphase | ⟨hearlier, hphase⟩ | ⟨hlater, hphase⟩
      · exact .inl hphase
      · exact .inr (.inl ⟨by omega, hphase⟩)
      · exact .inr (.inr ⟨by omega, hphase⟩)

/-- A round takes everybody on if each turn does. -/
theorem Stage.round (h : Stage work jobs count claims before workers)
    (hturn : Advances work jobs claims gain before after) :
    Stage work jobs count (claims + gain * count) after (workers.round work jobs count) := by
  have hturns (turns : Nat) (hinside : turns ≤ count) :
      Partway work jobs count claims gain before after turns
        (workers.run work jobs (List.range turns)) := by
    induction turns with
    | zero => exact h.partway after gain
    | succ turns ih =>
        have hrun : workers.run work jobs (List.range (turns + 1)) =
            (workers.run work jobs (List.range turns)).step work jobs turns := by
          rw [List.range_succ]
          exact List.foldl_append
        rw [hrun]
        exact (ih (by omega)).step hturn hinside
  exact (hturns count (Nat.le_refl count)).stage

end Partway

def Phase.Claimed (phase : Phase α β) : Prop := ∃ slot job, phase = .claimed slot job

def Phase.Finished (phase : Phase α β) : Prop := ∃ slot result, phase = .finished slot result

section Rounds

variable {count claims : Nat}

theorem Stage.claim (h : Stage work jobs count claims (· = .idle) workers) :
    Stage work jobs count (claims + count) Phase.Claimed (workers.round work jobs count) := by
  have hturn : Advances work jobs claims 1 (· = .idle) Phase.Claimed := by
    rintro workers turn _ - hold rfl
    unfold step
    rw [hold]
    cases jobs[workers.next]? with
    | none => exact ⟨.stopped, rfl, .inl rfl, rfl⟩
    | some job => exact ⟨_, rfl, .inr ⟨_, job, rfl⟩, rfl⟩
  have hround := h.round hturn
  rwa [Nat.one_mul] at hround

theorem Stage.finish (h : Stage work jobs count claims Phase.Claimed workers) :
    Stage work jobs count claims Phase.Finished (workers.round work jobs count) := by
  have hturn : Advances work jobs claims 0 Phase.Claimed Phase.Finished := by
    rintro workers turn _ - hold ⟨slot, job, rfl⟩
    unfold step
    rw [hold]
    exact ⟨_, rfl, .inr ⟨slot, work job, rfl⟩, rfl⟩
  have hround := h.round hturn
  rwa [Nat.zero_mul] at hround

theorem Stage.store (h : Stage work jobs count claims Phase.Finished workers) :
    Stage work jobs count claims (· = .idle) (workers.round work jobs count) := by
  have hturn : Advances work jobs claims 0 Phase.Finished (· = .idle) := by
    rintro workers turn _ - hold ⟨slot, result, rfl⟩
    unfold step
    rw [hold]
    exact ⟨_, rfl, .inr rfl, rfl⟩
  have hround := h.round hturn
  rwa [Nat.zero_mul] at hround

/-- Three rounds for each job of a worker. -/
theorem Stage.cycles (h : Stage work jobs count 0 (· = .idle) workers) (cycles : Nat) :
    Stage work jobs count (cycles * count) (· = .idle)
      ((Workers.round work jobs count)^[3 * cycles] workers) := by
  induction cycles with
  | zero => rwa [Nat.zero_mul]
  | succ cycles ih =>
      rw [Nat.succ_mul, Nat.mul_succ, Nat.add_comm (3 * cycles) 3, Function.iterate_add_apply]
      exact ih.claim.finish.store

/-- A worker that finds no job left stops. -/
theorem Stage.stop (h : Stage work jobs count claims (· = .idle) workers)
    (hall : jobs.length ≤ claims) :
    ∀ phase ∈ (workers.round work jobs count).phases, phase = .stopped := by
  have hturn : Advances work jobs claims 1 (· = .idle) fun _ => False := by
    rintro workers turn _ hclaims hold rfl
    have hnone : jobs[workers.next]? = none := List.getElem?_eq_none_iff.mpr (by omega)
    unfold step
    rw [hold]
    simp only [hnone]
    exact ⟨.stopped, rfl, .inl rfl, trivial⟩
  intro phase hphase
  exact ((h.round hturn).phases phase hphase).resolve_right id

end Rounds

theorem stage_start (work : α → β) (jobs : List α) (count : Nat) :
    Stage work jobs count 0 (· = .idle) (start jobs count) where
  sound := sound_start work jobs count
  length := List.length_replicate
  phases _ hphase := .inr (List.eq_of_mem_replicate hphase)
  claims := by
    rw [Nat.min_zero]
    exact Nat.zero_le _

/-- Turns round by round get all the work done. -/
theorem results_roundRobin (work : α → β) (jobs : List α) {count : Nat} (h : 0 < count) :
    ((start jobs count).run work jobs (roundRobin jobs.length count)).results = jobs.map work := by
  let cycles := jobs.length / count + 1
  have hidle := (stage_start work jobs count).cycles cycles
  have hall : jobs.length ≤ cycles * count := by
    have hdiv := Nat.div_add_mod jobs.length count
    have hmod := Nat.mod_lt jobs.length h
    rw [Nat.succ_mul, Nat.mul_comm]
    omega
  have hrun : (start jobs count).run work jobs (roundRobin jobs.length count) =
      ((round work jobs count)^[3 * cycles] (start jobs count)).round work jobs count := by
    rw [run_roundRobin, Function.iterate_succ_apply']
  rw [hrun]
  refine hidle.claim.sound.results_of_stopped ?_ (hidle.stop hall)
  intro hnone
  have hlength := hidle.claim.length
  rw [hnone] at hlength
  exact absurd hlength (Nat.ne_of_lt h)

end Workers

/-- However many jobs there are room for, all units are resolved, each on its own. -/
theorem SourceUnit.resolveAll_eq_map (registry : Registry) (options : Options) (jobs : Nat)
    (units : List SourceUnit) :
    resolveAll registry options jobs units = units.map (resolve registry options) := by
  unfold resolveAll
  generalize (if registry.frozen then min jobs units.length else 1) = count
  dsimp only
  split
  · rfl
  · next hcount => exact Workers.results_roundRobin _ _ (by omega)

end NameBinding
