import NameBinding.SourceUnit

/-!
Independent jobs shared out among workers. A worker claims the next job from a
counter, works on it, stores the result in that job's slot, and goes on until
no job is left. A schedule says whose turn each step is; a step is atomic, and
the workers may take their turns in any order.
-/

namespace NameBinding

/-- What a worker is about to do. -/
inductive Phase (α β : Type) where
  | idle
  | claimed (slot : Nat) (job : α)
  | finished (slot : Nat) (result : β)
  | stopped
deriving Repr

structure Workers (α β : Type) where
  next : Nat
  phases : List (Phase α β)
  slots : List (Option β)
deriving Repr

namespace Workers

variable {α β : Type}

def start (jobs : List α) (count : Nat) : Workers α β :=
  { next := 0
    phases := List.replicate count .idle
    slots := List.replicate jobs.length none }

/-- One turn of one worker. A turn of a worker that stopped, or that is none of
these workers, passes. -/
def step (work : α → β) (jobs : List α) (workers : Workers α β) (turn : Nat) :
    Workers α β :=
  match workers.phases[turn]? with
  | none | some .stopped => workers
  | some .idle =>
    let phase := match jobs[workers.next]? with
      | some job => .claimed workers.next job
      | none => .stopped
    { workers with
      next := workers.next + 1
      phases := workers.phases.set turn phase }
  | some (.claimed slot job) =>
    { workers with phases := workers.phases.set turn (.finished slot (work job)) }
  | some (.finished slot result) =>
    { workers with
      slots := workers.slots.set slot (some result)
      phases := workers.phases.set turn .idle }

def run (work : α → β) (jobs : List α) (workers : Workers α β) (schedule : List Nat) :
    Workers α β :=
  schedule.foldl (step work jobs) workers

def results (workers : Workers α β) : List β := workers.slots.filterMap id

/-- Rounds in which every worker has one turn. A job takes three turns, so these
are enough for all the jobs and for every worker to stop. -/
def roundRobin (jobs count : Nat) : List Nat :=
  (List.range (3 * (jobs / count + 1) + 1)).flatMap fun _ => List.range count

end Workers

/-- All units, in order. Workers share them only over a frozen registry, and
only if there is use for more than one. -/
def SourceUnit.resolveAll (registry : Registry) (options : Options) (jobs : Nat)
    (units : List SourceUnit) : List ResolvedUnit :=
  let count := if registry.frozen then min jobs units.length else 1
  if count ≤ 1 then units.map (resolve registry options)
  else
    ((Workers.start units count).run (resolve registry options) units
      (Workers.roundRobin units.length count)).results

end NameBinding
