import YtWebsub.Base.Monitor

open machine monitor

namespace tiny_http.task_pool

variable {T : Type}

/-- Minimum number of active threads. -/
def MIN_THREADS : Nat := 4

def MAX_THREADS : Nat := 20

/-- Where a worker thread is. -/
inductive Worker (T : Type) where
  /-- Created, and not counted by `active_tasks` yet. -/
  | starting (initial_fn : Option T)
  | running (task : T)
  | looking
  /-- In `wait_timeout` or, where it is not timed, in `wait`. -/
  | waiting (timed : Bool)
  | woken (received : Bool)
  /-- Out of its loop, and still counted by `active_tasks`. -/
  | leaving
  | gone
deriving DecidableEq

structure TaskPool (T : Type) where
  todo : List T
  workers : List (Worker T)
  active_tasks : Nat
  waiting_tasks : Nat
  /-- The pool has been dropped; nobody can spawn on it. -/
  dropped : Bool
deriving DecidableEq

/-- The system grants `threads` of the first threads. -/
def TaskPool.new (threads : Nat) : TaskPool T where
  todo := []
  workers := List.replicate threads (.starting none)
  active_tasks := 0
  waiting_tasks := 0
  dropped := false

inductive Action (T : Type) where
  /-- `granted` says whether the system allows a new thread, should one be asked for, and
  `notified` which waiting worker `notify_one` wakes. -/
  | spawn (code : T) (granted : Bool) (notified : Nat)
  | register (i : Nat)
  | finish (i : Nat)
  | look (i : Nat)
  /-- A wait ends without a notification and without its timeout. -/
  | wake (i : Nat)
  | time_out (i : Nat)
  | resume (i : Nat)
  | unregister (i : Nat)
  | drop

def Worker.isWaiting : Worker T → Bool
  | .waiting _ => true
  | _ => false

def Worker.isWoken : Worker T → Bool
  | .woken _ => true
  | _ => false

def Worker.wakeUp : Worker T → Worker T
  | .waiting _ => .woken true
  | worker => worker

def notify_one (workers : List (Worker T)) (notified : Nat) : Option (List (Worker T)) :=
  match workers[notified]? with
  | some (.waiting _) => some (workers.set notified (.woken true))
  | _ => if workers.any Worker.isWaiting then none else some workers

/-- The condition under which `spawn` asks for a new thread. -/
def TaskPool.lacksWorker (s : TaskPool T) : Bool :=
  s.waiting_tasks = 0 && s.active_tasks < MAX_THREADS

/-- A refused closure is dropped. -/
def add_thread (s : TaskPool T) (initial_fn : Option T) (granted : Bool) : TaskPool T :=
  if granted then { s with workers := s.workers ++ [.starting initial_fn] } else s

/-- The inner loop of worker `i` with the lock held, up to the wait. -/
def pop_front (s : TaskPool T) (i : Nat) : TaskPool T :=
  match s.todo with
  | task :: todo => { s with todo, workers := s.workers.set i (.running task) }
  | [] =>
    { s with
      waiting_tasks := s.waiting_tasks + 1
      workers := s.workers.set i (.waiting (!decide (s.active_tasks ≤ MIN_THREADS))) }

def step (s : TaskPool T) : Action T → Option (TaskPool T)
  | .spawn code granted notified =>
    if s.dropped then none
    else if s.lacksWorker then some (add_thread s (some code) granted)
    else (notify_one s.workers notified).map fun workers => { s with todo := s.todo ++ [code], workers }
  | .register i =>
    match s.workers[i]? with
    | some (.starting initial_fn) =>
      some
        { s with
          active_tasks := s.active_tasks + 1
          workers := s.workers.set i (initial_fn.elim .looking .running) }
    | _ => none
  | .finish i =>
    match s.workers[i]? with
    | some (.running _) => some { s with workers := s.workers.set i .looking }
    | _ => none
  | .look i =>
    match s.workers[i]? with
    | some .looking => some (pop_front s i)
    | _ => none
  | .wake i =>
    match s.workers[i]? with
    | some (.waiting _) => some { s with workers := s.workers.set i (.woken true) }
    | _ => none
  | .time_out i =>
    match s.workers[i]? with
    | some (.waiting true) => some { s with workers := s.workers.set i (.woken false) }
    | _ => none
  | .resume i =>
    match s.workers[i]? with
    | some (.woken received) =>
      -- the registration as a waiting task ends with the pass of the loop
      let s := { s with waiting_tasks := s.waiting_tasks - 1 }
      if !received && s.todo.isEmpty then some { s with workers := s.workers.set i .leaving }
      else some (pop_front s i)
    | _ => none
  | .unregister i =>
    match s.workers[i]? with
    | some .leaving => some { s with active_tasks := s.active_tasks - 1, workers := s.workers.set i .gone }
    | _ => none
  | .drop =>
    if s.dropped then none
    else some { s with active_tasks := 999999999, workers := s.workers.map Worker.wakeUp, dropped := true }

/-- What a step finds, and what it leaves behind. -/
inductive Progress (s : TaskPool T) : Action T → TaskPool T → Prop where
  | created {code : T} {notified : Nat} (alive : s.dropped = false) (lacks : s.lacksWorker = true) :
    Progress s (.spawn code true notified) { s with workers := s.workers ++ [.starting (some code)] }
  | refused {code : T} {notified : Nat} (alive : s.dropped = false) (lacks : s.lacksWorker = true) :
    Progress s (.spawn code false notified) s
  | queued {code : T} {granted : Bool} {notified : Nat} {workers : List (Worker T)} (alive : s.dropped = false)
      (lacks : s.lacksWorker = false) (notify : notify_one s.workers notified = some workers) :
    Progress s (.spawn code granted notified) { s with todo := s.todo ++ [code], workers }
  | register {i : Nat} {initial_fn : Option T} (hi : s.workers[i]? = some (.starting initial_fn)) :
    Progress s (.register i)
      { s with
        active_tasks := s.active_tasks + 1
        workers := s.workers.set i (initial_fn.elim .looking .running) }
  | finish {i : Nat} {task : T} (hi : s.workers[i]? = some (.running task)) :
    Progress s (.finish i) { s with workers := s.workers.set i .looking }
  | look {i : Nat} (hi : s.workers[i]? = some .looking) : Progress s (.look i) (pop_front s i)
  | wake {i : Nat} {timed : Bool} (hi : s.workers[i]? = some (.waiting timed)) :
    Progress s (.wake i) { s with workers := s.workers.set i (.woken true) }
  | time_out {i : Nat} (hi : s.workers[i]? = some (.waiting true)) :
    Progress s (.time_out i) { s with workers := s.workers.set i (.woken false) }
  | leave {i : Nat} (hi : s.workers[i]? = some (.woken false)) (empty : s.todo = []) :
    Progress s (.resume i)
      { s with waiting_tasks := s.waiting_tasks - 1, workers := s.workers.set i .leaving }
  | resume {i : Nat} {received : Bool} (hi : s.workers[i]? = some (.woken received)) :
    Progress s (.resume i) (pop_front { s with waiting_tasks := s.waiting_tasks - 1 } i)
  | unregister {i : Nat} (hi : s.workers[i]? = some .leaving) :
    Progress s (.unregister i) { s with active_tasks := s.active_tasks - 1, workers := s.workers.set i .gone }
  | drop (alive : s.dropped = false) :
    Progress s .drop
      { s with active_tasks := 999999999, workers := s.workers.map Worker.wakeUp, dropped := true }

theorem step_progress {s s' : TaskPool T} {a : Action T} (hstep : step s a = some s') : Progress s a s' := by
  cases a with
  | spawn code granted notified =>
    simp only [step, Option.ite_none_left_eq_some, Bool.not_eq_true] at hstep
    obtain ⟨halive, hstep⟩ := hstep
    split at hstep
    · rename_i hlacks
      obtain rfl := Option.some.inj hstep
      cases granted with
      | true => exact .created halive hlacks
      | false => exact .refused halive hlacks
    · rename_i hlacks
      obtain ⟨workers, hnotify, rfl⟩ := Option.map_eq_some_iff.mp hstep
      exact .queued halive (Bool.not_eq_true _ ▸ hlacks) hnotify
  | register i =>
    simp only [step] at hstep
    split at hstep
    · rename_i initial_fn hi
      obtain rfl := Option.some.inj hstep
      exact .register hi
    · cases hstep
  | finish i =>
    simp only [step] at hstep
    split at hstep
    · rename_i task hi
      obtain rfl := Option.some.inj hstep
      exact .finish hi
    · cases hstep
  | look i =>
    simp only [step] at hstep
    split at hstep
    · rename_i hi
      obtain rfl := Option.some.inj hstep
      exact .look hi
    · cases hstep
  | wake i =>
    simp only [step] at hstep
    split at hstep
    · rename_i timed hi
      obtain rfl := Option.some.inj hstep
      exact .wake hi
    · cases hstep
  | time_out i =>
    simp only [step] at hstep
    split at hstep
    · rename_i hi
      obtain rfl := Option.some.inj hstep
      exact .time_out hi
    · cases hstep
  | resume i =>
    simp only [step] at hstep
    split at hstep
    · rename_i received hi
      split at hstep
      · rename_i hleaves
        obtain ⟨hreceived, hempty⟩ := Bool.and_eq_true_iff.mp hleaves
        obtain rfl := Option.some.inj hstep
        obtain rfl : received = false := by simpa using hreceived
        exact .leave hi (List.isEmpty_iff.mp hempty)
      · obtain rfl := Option.some.inj hstep
        exact .resume hi
    · cases hstep
  | unregister i =>
    simp only [step] at hstep
    split at hstep
    · rename_i hi
      obtain rfl := Option.some.inj hstep
      exact .unregister hi
    · cases hstep
  | drop =>
    simp only [step, Option.ite_none_left_eq_some, Bool.not_eq_true] at hstep
    obtain ⟨halive, hstep⟩ := hstep
    obtain rfl := Option.some.inj hstep
    exact .drop halive

section attended

/-- Every worker that waits, or was woken, will look at the queue before it leaves. -/
def counts (s : TaskPool T) : Counts where
  queued := s.todo.length
  parked := population Worker.isWaiting s.workers
  woken := population Worker.isWoken s.workers

/-- What one worker's change of place does to the counts. -/
theorem set_worker {workers : List (Worker T)} {i : Nat} {old : Worker T} (hi : workers[i]? = some old)
    (new : Worker T) :
    population Worker.isWaiting (workers.set i new) + old.isWaiting.toNat =
        population Worker.isWaiting workers + new.isWaiting.toNat ∧
      population Worker.isWoken (workers.set i new) + old.isWoken.toNat =
        population Worker.isWoken workers + new.isWoken.toNat :=
  ⟨population_set _ hi new, population_set _ hi new⟩

theorem notify_one_cases {workers workers' : List (Worker T)} {notified : Nat}
    (h : notify_one workers notified = some workers') :
    (∃ timed, workers[notified]? = some (.waiting timed) ∧ workers' = workers.set notified (.woken true)) ∨
      population Worker.isWaiting workers = 0 ∧ workers' = workers := by
  simp only [notify_one] at h
  split at h
  · rename_i timed hi
    exact .inl ⟨timed, hi, (Option.some.inj h).symm⟩
  · obtain ⟨hnone, h⟩ := Option.ite_none_left_eq_some.mp h
    refine .inr ⟨?_, (Option.some.inj h).symm⟩
    by_contra hpos
    obtain ⟨worker, hmem, hwaits⟩ := (population_pos _).mp (Nat.pos_of_ne_zero hpos)
    exact hnone (List.any_eq_true.mpr ⟨worker, hmem, hwaits⟩)

/-- A worker that neither waits nor was woken, before and after. -/
theorem set_busy {workers : List (Worker T)} {i : Nat} {old : Worker T} (hi : workers[i]? = some old) (new : Worker T)
    (hold : old.isWaiting = false ∧ old.isWoken = false) (hnew : new.isWaiting = false ∧ new.isWoken = false) :
    population Worker.isWaiting (workers.set i new) = population Worker.isWaiting workers ∧
      population Worker.isWoken (workers.set i new) = population Worker.isWoken workers := by
  obtain ⟨hwaiting, hwoken⟩ := set_worker hi new
  simp only [hold, hnew, Bool.toNat_false, Nat.add_zero] at hwaiting hwoken
  exact ⟨hwaiting, hwoken⟩

theorem pop_front_moves {s : TaskPool T} {i : Nat} (hi : s.workers[i]? = some .looking) :
    ∃ moves, Run move (counts s) moves (counts (pop_front s i)) := by
  cases htodo : s.todo with
  | cons task todo =>
    refine ⟨[.take], run_singleton.mpr ?_⟩
    obtain ⟨hwaiting, hwoken⟩ := set_busy hi (.running task) ⟨rfl, rfl⟩ ⟨rfl, rfl⟩
    simp only [pop_front, counts, move, htodo, hwaiting, hwoken, List.length_cons, Nat.succ_pos, if_true,
      Nat.add_sub_cancel]
  | nil =>
    refine ⟨[.park], run_singleton.mpr ?_⟩
    obtain ⟨hwaiting, hwoken⟩ := set_worker hi (.waiting (!decide (s.active_tasks ≤ MIN_THREADS)))
    simp only [Worker.isWaiting, Worker.isWoken, Bool.toNat_false, Bool.toNat_true, Nat.add_zero] at hwaiting hwoken
    simp only [pop_front, counts, move, htodo, hwaiting, hwoken, List.length_nil, if_true]

theorem pop_front_woken_moves {s : TaskPool T} {i : Nat} {received : Bool}
    (hi : s.workers[i]? = some (.woken received)) :
    ∃ moves, Run move (counts s) moves (counts (pop_front s i)) := by
  cases htodo : s.todo with
  | cons task todo =>
    refine ⟨[.woken_take], run_singleton.mpr ?_⟩
    obtain ⟨hwaiting, hwoken⟩ := set_worker hi (.running task)
    simp only [Worker.isWaiting, Worker.isWoken, Bool.toNat_false, Bool.toNat_true] at hwaiting hwoken
    simp only [pop_front, counts, move, htodo, List.length_cons]
    grind
  | nil =>
    refine ⟨[.woken_park], run_singleton.mpr ?_⟩
    obtain ⟨hwaiting, hwoken⟩ := set_worker hi (.waiting (!decide (s.active_tasks ≤ MIN_THREADS)))
    simp only [Worker.isWaiting, Worker.isWoken, Bool.toNat_false, Bool.toNat_true] at hwaiting hwoken
    simp only [pop_front, counts, move, htodo, List.length_nil]
    grind

theorem wake_up_moves (s : TaskPool T) :
    population Worker.isWaiting (s.workers.map Worker.wakeUp) = 0 ∧
      population Worker.isWoken (s.workers.map Worker.wakeUp) = (counts s).woken + (counts s).parked := by
  simp only [counts]
  induction s.workers with
  | nil => exact ⟨rfl, rfl⟩
  | cons worker workers ih =>
    simp only [List.map_cons, population_cons]
    cases worker <;> simp only [Worker.wakeUp, Worker.isWaiting, Worker.isWoken, Bool.toNat_false, Bool.toNat_true] <;>
      omega

theorem wake_moves {s : TaskPool T} {i : Nat} {timed : Bool} (hi : s.workers[i]? = some (.waiting timed))
    (received : Bool) :
    ∃ moves, Run move (counts s) moves (counts { s with workers := s.workers.set i (.woken received) }) := by
  refine ⟨[.wake], run_singleton.mpr ?_⟩
  obtain ⟨hwaiting, hwoken⟩ := set_worker hi (.woken received)
  simp only [Worker.isWaiting, Worker.isWoken, Bool.toNat_false, Bool.toNat_true] at hwaiting hwoken
  simp only [counts, move]
  grind

theorem step_moves {s s' : TaskPool T} {a : Action T} (hstep : step s a = some s') :
    ∃ moves, Run move (counts s) moves (counts s') := by
  cases step_progress hstep with
  | created alive lacks =>
    refine ⟨[], run_nil.mpr ?_⟩
    simp only [counts, population_append]
    rfl
  | refused alive lacks => exact ⟨[], run_nil.mpr rfl⟩
  | queued alive lacks notify =>
    refine ⟨[.push], run_singleton.mpr ?_⟩
    obtain ⟨timed, hi, rfl⟩ | ⟨hzero, rfl⟩ := notify_one_cases notify
    · obtain ⟨hwaiting, hwoken⟩ := set_worker hi (.woken true)
      simp only [Worker.isWaiting, Worker.isWoken, Bool.toNat_false, Bool.toNat_true] at hwaiting hwoken
      simp only [counts, move, List.length_append, List.length_singleton]
      grind
    · simp [counts, move, hzero]
  | register hi =>
    refine ⟨[], run_nil.mpr ?_⟩
    rename_i i initial_fn
    obtain ⟨hwaiting, hwoken⟩ := set_busy hi (initial_fn.elim .looking .running) ⟨rfl, rfl⟩
      (by cases initial_fn <;> exact ⟨rfl, rfl⟩)
    simp only [counts, hwaiting, hwoken]
  | finish hi =>
    refine ⟨[], run_nil.mpr ?_⟩
    obtain ⟨hwaiting, hwoken⟩ := set_busy hi .looking ⟨rfl, rfl⟩ ⟨rfl, rfl⟩
    simp only [counts, hwaiting, hwoken]
  | look hi => exact pop_front_moves hi
  | wake hi => exact wake_moves hi true
  | time_out hi => exact wake_moves hi false
  | leave hi empty =>
    refine ⟨[.woken_leave], run_singleton.mpr ?_⟩
    obtain ⟨hwaiting, hwoken⟩ := set_worker hi .leaving
    simp only [Worker.isWaiting, Worker.isWoken, Bool.toNat_false, Bool.toNat_true] at hwaiting hwoken
    simp only [counts, move, empty, List.length_nil]
    grind
  | resume hi =>
    obtain ⟨moves, hmoves⟩ := pop_front_woken_moves (s := { s with waiting_tasks := s.waiting_tasks - 1 }) hi
    exact ⟨moves, hmoves⟩
  | unregister hi =>
    refine ⟨[], run_nil.mpr ?_⟩
    obtain ⟨hwaiting, hwoken⟩ := set_busy hi .gone ⟨rfl, rfl⟩ ⟨rfl, rfl⟩
    simp only [counts, hwaiting, hwoken]
  | drop alive =>
    refine ⟨[.notify_all], run_singleton.mpr ?_⟩
    obtain ⟨hwaiting, hwoken⟩ := wake_up_moves s
    simp only [move, counts, hwaiting, hwoken]

theorem new_attended (threads : Nat) : Attended (counts (.new threads : TaskPool T)) :=
  fun _ => Nat.zero_le _

end attended

section counted

/-- Counted by `active_tasks`. -/
def Worker.isRegistered : Worker T → Bool
  | .starting _ | .gone => false
  | .running _ | .looking | .waiting _ | .woken _ | .leaving => true

/-- Counted by `waiting_tasks`. -/
def Worker.isIdle : Worker T → Bool
  | .waiting _ | .woken _ => true
  | _ => false

/-- The two counters are right, but for `active_tasks` once the pool is dropped. -/
structure Counted (s : TaskPool T) : Prop where
  active : s.dropped = false → s.active_tasks = population Worker.isRegistered s.workers
  waiting : s.waiting_tasks = population Worker.isIdle s.workers

theorem Counted.new (threads : Nat) : Counted (.new threads : TaskPool T) where
  active _ := by
    rw [TaskPool.new, population_eq_countP, List.countP_replicate]
    rfl
  waiting := by
    rw [TaskPool.new, population_eq_countP, List.countP_replicate]
    rfl

/-- A worker's move keeps the counters right if they move with it. -/
theorem Counted.set {s : TaskPool T} (h : Counted s) {i : Nat} {old : Worker T} (hi : s.workers[i]? = some old)
    (new : Worker T) {todo : List T} {active_tasks waiting_tasks : Nat}
    (hactive : s.dropped = false → active_tasks + old.isRegistered.toNat = s.active_tasks + new.isRegistered.toNat)
    (hwaiting : waiting_tasks + old.isIdle.toNat = s.waiting_tasks + new.isIdle.toNat) :
    Counted { s with todo, active_tasks, waiting_tasks, workers := s.workers.set i new } where
  active hdropped := by
    have hset := population_set Worker.isRegistered hi new
    have hcount := h.active hdropped
    have hmoved := hactive hdropped
    simp only
    omega
  waiting := by
    have hset := population_set Worker.isIdle hi new
    have hcount := h.waiting
    simp only
    omega

/-- `waiting_tasks` does not fall below zero. -/
theorem Counted.idle_pos {s : TaskPool T} (h : Counted s) {i : Nat} {received : Bool}
    (hi : s.workers[i]? = some (.woken received)) : 0 < s.waiting_tasks := by
  rw [h.waiting]
  exact (population_pos _).mpr ⟨_, List.mem_of_getElem? hi, rfl⟩

theorem Counted.look {s : TaskPool T} (h : Counted s) {i : Nat} (hi : s.workers[i]? = some .looking) :
    Counted (pop_front s i) := by
  rw [pop_front]
  split
  · exact h.set hi _ (fun _ => rfl) rfl
  · exact h.set hi _ (fun _ => rfl) rfl

theorem Counted.resume {s : TaskPool T} (h : Counted s) {i : Nat} {received : Bool}
    (hi : s.workers[i]? = some (.woken received)) :
    Counted (pop_front { s with waiting_tasks := s.waiting_tasks - 1 } i) := by
  have hpos := h.idle_pos hi
  rw [pop_front]
  split
  · exact h.set hi _ (fun _ => rfl) (Nat.sub_add_cancel hpos)
  · refine h.set hi _ (fun _ => rfl) ?_
    simp only [Worker.isIdle, Bool.toNat_true]
    omega

theorem Counted.unregister {s : TaskPool T} (h : Counted s) {i : Nat} (hi : s.workers[i]? = some .leaving) :
    Counted { s with active_tasks := s.active_tasks - 1, workers := s.workers.set i .gone } := by
  refine h.set hi .gone (fun hdropped => ?_) rfl
  have hpos : 0 < population Worker.isRegistered s.workers :=
    (population_pos _).mpr ⟨_, List.mem_of_getElem? hi, rfl⟩
  rw [h.active hdropped]
  exact Nat.sub_add_cancel hpos

theorem Counted.created {s : TaskPool T} (h : Counted s) (code : T) :
    Counted { s with workers := s.workers ++ [.starting (some code)] } where
  active hdropped := by
    rw [population_append, h.active hdropped]
    rfl
  waiting := by
    rw [population_append, h.waiting]
    rfl

theorem Counted.queued {s : TaskPool T} (h : Counted s) {code : T} {notified : Nat} {workers : List (Worker T)}
    (hnotify : notify_one s.workers notified = some workers) :
    Counted { s with todo := s.todo ++ [code], workers } := by
  obtain ⟨timed, hi, rfl⟩ | ⟨_, rfl⟩ := notify_one_cases hnotify
  · exact h.set hi (.woken true) (fun _ => rfl) rfl
  · exact ⟨h.active, h.waiting⟩

theorem Counted.drop {s : TaskPool T} (h : Counted s) :
    Counted { s with active_tasks := 999999999, workers := s.workers.map Worker.wakeUp, dropped := true } where
  active hdropped := by cases hdropped
  waiting := by
    rw [population_map _ (by rintro (_ | _ | _ | _ | _ | _ | _) <;> rfl)]
    exact h.waiting

theorem step_counted {s s' : TaskPool T} {a : Action T} (h : Counted s) (hstep : step s a = some s') : Counted s' := by
  cases step_progress hstep with
  | created alive lacks => exact h.created _
  | refused alive lacks => exact h
  | queued alive lacks notify => exact h.queued notify
  | @register i initial_fn hi =>
    exact h.set hi _ (fun _ => by cases initial_fn <;> rfl) (by cases initial_fn <;> rfl)
  | finish hi => exact h.set hi .looking (fun _ => rfl) rfl
  | look hi => exact h.look hi
  | wake hi => exact h.set hi (.woken true) (fun _ => rfl) rfl
  | time_out hi => exact h.set hi (.woken false) (fun _ => rfl) rfl
  | leave hi empty => exact h.set hi .leaving (fun _ => rfl) (Nat.sub_add_cancel (h.idle_pos hi))
  | resume hi => exact h.resume hi
  | unregister hi => exact h.unregister hi
  | drop alive => exact h.drop

end counted

section served

def Worker.isLeaving : Worker T → Bool
  | .leaving => true
  | _ => false

/-- Will look at the queue before it leaves or waits. -/
def Worker.isComing : Worker T → Bool
  | .starting _ | .running _ | .looking | .woken _ => true
  | .waiting _ | .leaving | .gone => false

/-- A queued task has a worker that will come for it. -/
def Served (s : TaskPool T) : Prop :=
  s.todo ≠ [] → 0 < population Worker.isComing s.workers

/-- Fewer than `MAX_THREADS` workers are between their decision to leave and the end of
their registration. -/
def NotAllLeaving (s : TaskPool T) (_ : Action T) : Prop :=
  population Worker.isLeaving s.workers < MAX_THREADS

instance (s : TaskPool T) (a : Action T) : Decidable (NotAllLeaving s a) :=
  Nat.decLt _ _

/-- The queue stays served by a move to a place from which the worker comes, and by one
from a place from which it did not come. -/
theorem Served.set {s : TaskPool T} (h : Served s) {i : Nat} {old : Worker T} (hi : s.workers[i]? = some old)
    (new : Worker T) {todo : List T} {active_tasks waiting_tasks : Nat}
    (hserved : todo ≠ [] → new.isComing = true ∨ s.todo ≠ [] ∧ old.isComing = false) :
    Served { s with todo, active_tasks, waiting_tasks, workers := s.workers.set i new } := by
  intro htodo
  obtain hnew | ⟨hqueued, hold⟩ := hserved htodo
  · exact population_set_pos _ hi hnew
  · have hset := population_set Worker.isComing hi new
    have hcount := h hqueued
    rw [hold] at hset
    simp only [Bool.toNat_false] at hset ⊢
    omega

/-- A worker that looks takes a task, or finds none. -/
theorem Served.pop_front {s : TaskPool T} (h : Served s) {i : Nat} {old : Worker T}
    (hi : s.workers[i]? = some old) : Served (pop_front s i) := by
  rw [task_pool.pop_front]
  split
  · exact h.set hi (.running _) (fun _ => .inl rfl)
  · rename_i hempty
    exact h.set hi _ (fun hne => absurd hempty hne)

/-- A task is queued where a worker is idle, or where `MAX_THREADS` are registered and not
all of them are leaving. -/
theorem Served.queued {s : TaskPool T} (h : Served s) (hcounted : Counted s) {code : T}
    (hleaving : population Worker.isLeaving s.workers < MAX_THREADS) (halive : s.dropped = false)
    (hlacks : s.lacksWorker = false) {notified : Nat} {workers : List (Worker T)}
    (hnotify : notify_one s.workers notified = some workers) :
    Served { s with todo := s.todo ++ [code], workers } := by
  obtain ⟨timed, hi, rfl⟩ | ⟨hzero, rfl⟩ := notify_one_cases hnotify
  · exact h.set hi (.woken true) (fun _ => .inl rfl)
  · intro _
    have hwaits : ∀ worker ∈ s.workers, worker.isWaiting = false := fun worker hmem => by
      by_contra hwaiting
      exact hzero.not_gt ((population_pos _).mpr ⟨worker, hmem, eq_true_of_ne_false hwaiting⟩)
    by_cases hidle : s.waiting_tasks = 0
    · -- if none were coming, those registered would all be leaving
      by_contra hnone
      have hcoming : ∀ worker ∈ s.workers, worker.isComing = false := fun worker hmem => by
        by_contra hcomes
        exact hnone ((population_pos _).mpr ⟨worker, hmem, eq_true_of_ne_false hcomes⟩)
      have hle : population Worker.isRegistered s.workers ≤ population Worker.isLeaving s.workers := by
        refine population_le _ fun worker hmem hregistered => ?_
        have hwaiting := hwaits worker hmem
        have hcomes := hcoming worker hmem
        cases worker <;> simp_all [Worker.isWaiting, Worker.isComing, Worker.isRegistered, Worker.isLeaving]
      have hfull : MAX_THREADS ≤ s.active_tasks := by
        simpa [TaskPool.lacksWorker, hidle] using hlacks
      rw [hcounted.active halive] at hfull
      omega
    · have hpos : 0 < population Worker.isIdle s.workers := by
        rw [← hcounted.waiting]
        exact Nat.pos_of_ne_zero hidle
      obtain ⟨worker, hmem, hidle⟩ := (population_pos _).mp hpos
      refine (population_pos _).mpr ⟨worker, hmem, ?_⟩
      have hwaiting := hwaits worker hmem
      cases worker <;> simp_all [Worker.isWaiting, Worker.isComing, Worker.isIdle]

theorem step_served {s s' : TaskPool T} {a : Action T} (h : Served s) (hcounted : Counted s)
    (hleaving : NotAllLeaving s a) (hstep : step s a = some s') : Served s' := by
  cases step_progress hstep with
  | created alive lacks =>
    intro _
    rw [population_append]
    exact Nat.succ_pos _
  | refused alive lacks => exact h
  | queued alive lacks notify => exact h.queued hcounted hleaving alive lacks notify
  | @register i initial_fn hi => exact h.set hi _ (fun _ => .inl (by cases initial_fn <;> rfl))
  | finish hi => exact h.set hi .looking (fun _ => .inl rfl)
  | look hi => exact h.pop_front hi
  | wake hi => exact h.set hi (.woken true) (fun _ => .inl rfl)
  | time_out hi => exact h.set hi (.woken false) (fun _ => .inl rfl)
  | leave hi empty => exact h.set hi .leaving (fun hne => absurd empty hne)
  | resume hi =>
    have hwoken : Served { s with waiting_tasks := s.waiting_tasks - 1 } := h
    exact hwoken.pop_front hi
  | unregister hi => exact h.set hi .gone (fun hne => .inr ⟨hne, rfl⟩)
  | drop alive =>
    intro htodo
    obtain ⟨worker, hmem, hcomes⟩ := (population_pos _).mp (h htodo)
    refine (population_pos _).mpr ⟨worker.wakeUp, List.mem_map_of_mem hmem, ?_⟩
    cases worker <;> first | exact hcomes | rfl

/-- While a task is queued, some worker is on its way to the queue, and while workers wait
there is a woken one for every task, in every run in which `MAX_THREADS` workers are never
between their decision to leave and the end of their registration at once. -/
theorem queued_tasks_attended {threads : Nat} {actions : List (Action T)} {s : TaskPool T}
    (hrun : Run step (.new threads) actions s) (hleaving : Along step NotAllLeaving (.new threads) actions)
    (htodo : s.todo ≠ []) :
    0 < population Worker.isComing s.workers ∧
      (0 < population Worker.isWaiting s.workers → s.todo.length ≤ population Worker.isWoken s.workers) := by
  constructor
  · have hinv := hrun.invariant_along (fun s => Counted s ∧ Served s)
      (fun _ _ _ h hleaving hstep => ⟨step_counted h.1 hstep, step_served h.2 h.1 hleaving hstep⟩) hleaving
      ⟨.new threads, fun hne => absurd rfl hne⟩
    exact hinv.2 htodo
  · obtain ⟨moves, hmoves⟩ := hrun.simulated (fun _ => True) counts
      (fun _ _ _ _ _ hstep => ⟨trivial, step_moves hstep⟩) hleaving trivial
    exact (new_attended threads).run hmoves

/-- A task comes, is done, and the next is queued for the worker that waits. -/
def twoTasks : List (Action Nat) :=
  [.register 0, .look 0, .spawn 7 true 0, .resume 0, .finish 0, .look 0, .spawn 8 true 0]

theorem queued_tasks_attended_two :
    ∃ s, Run step (.new 1) twoTasks s ∧ s.todo = [8] ∧
      (0 < population Worker.isComing s.workers ∧
        (0 < population Worker.isWaiting s.workers → s.todo.length ≤ population Worker.isWoken s.workers)) := by
  obtain ⟨s, hrun, htodo⟩ := exists_run step
    (show (twoTasks.foldlM step (.new 1)).any (fun s => s.todo = [8]) = true by decide)
  have hqueued : s.todo = [8] := of_decide_eq_true htodo
  exact ⟨s, hrun, hqueued, queued_tasks_attended hrun (by decide) (by simp [hqueued])⟩

/-- A burst fills the pool, its tasks end, all waits run out together, and a task arrives
before any worker is unregistered. -/
def burst : List (Action Nat) :=
  (List.range 16).map (.spawn · true 0) ++ (List.range 20).map .register ++
    (List.range 16).map (fun i => .finish (i + 4)) ++ (List.range 20).map .look ++ (List.range 20).map .time_out ++
    (List.range 20).map .resume ++ [.spawn 16 true 0]

theorem leaving_pool_strands_task :
    ∃ s, Run step (.new 4) burst s ∧ s.todo = [16] ∧ s.workers = List.replicate 20 .leaving := by
  obtain ⟨s, hrun, hs⟩ := exists_run step
    (show (burst.foldlM step (.new 4)).any (fun s => s.todo = [16] && s.workers = List.replicate 20 .leaving) = true
      by decide +kernel)
  obtain ⟨htodo, hworkers⟩ := Bool.and_eq_true_iff.mp hs
  exact ⟨s, hrun, of_decide_eq_true htodo, of_decide_eq_true hworkers⟩

end served

section bounded

def Worker.isStarting : Worker T → Bool
  | .starting _ => true
  | _ => false

def Worker.isLive : Worker T → Bool
  | .gone => false
  | _ => true

/-- At most `k` workers have been created and not registered when it is decided to create
another. -/
def AtMostStarting (k : Nat) (s : TaskPool T) : Action T → Prop
  | .spawn _ _ _ => s.lacksWorker = true → population Worker.isStarting s.workers ≤ k
  | _ => True

theorem live_eq (workers : List (Worker T)) : population Worker.isLive workers =
    population Worker.isStarting workers + population Worker.isRegistered workers := by
  induction workers with
  | nil => rfl
  | cons worker workers ih =>
    simp only [population_cons, ih]
    cases worker <;> simp only [Worker.isLive, Worker.isStarting, Worker.isRegistered, Bool.toNat_false,
      Bool.toNat_true] <;> omega

/-- A move of a worker that does not end leaves the number of live workers. -/
theorem live_set {workers : List (Worker T)} {i : Nat} {old : Worker T} (hi : workers[i]? = some old)
    (new : Worker T) (hold : old.isLive = true) :
    population Worker.isLive (workers.set i new) ≤ population Worker.isLive workers := by
  have hset := population_set Worker.isLive hi new
  have hle := Bool.toNat_le new.isLive
  rw [hold] at hset
  simp only [Bool.toNat_true] at hset
  omega

theorem step_live {s s' : TaskPool T} {a : Action T} (hstep : step s a = some s') :
    population Worker.isLive s'.workers ≤ population Worker.isLive s.workers ∨
      s.dropped = false ∧ s.lacksWorker = true ∧ (∃ code granted notified, a = .spawn code granted notified) ∧
        population Worker.isLive s'.workers = population Worker.isLive s.workers + 1 := by
  have hpop : ∀ {s : TaskPool T} {i : Nat} {old : Worker T}, s.workers[i]? = some old → old.isLive = true →
      population Worker.isLive (pop_front s i).workers ≤ population Worker.isLive s.workers := fun hi hold => by
    rw [pop_front]
    split
    · exact live_set hi _ hold
    · exact live_set hi _ hold
  cases step_progress hstep with
  | created alive lacks => exact .inr ⟨alive, lacks, ⟨_, _, _, rfl⟩, population_append _⟩
  | refused alive lacks => exact .inl le_rfl
  | queued alive lacks notify =>
    obtain ⟨timed, hi, rfl⟩ | ⟨_, rfl⟩ := notify_one_cases notify
    · exact .inl (live_set hi _ rfl)
    · exact .inl le_rfl
  | register hi | finish hi | wake hi | time_out hi | leave hi empty | unregister hi => exact .inl (live_set hi _ rfl)
  | look hi => exact .inl (hpop hi rfl)
  | resume hi => exact .inl (hpop (s := { s with waiting_tasks := s.waiting_tasks - 1 }) hi rfl)
  | drop alive =>
    left
    rw [population_map _ (by rintro (_ | _ | _ | _ | _ | _ | _) <;> rfl)]

/-- The pool outgrows its ceiling by no more than the workers that a spawn finds created
and not registered, in every run. -/
theorem workers_bounded {threads k : Nat} {actions : List (Action T)} {s : TaskPool T}
    (hrun : Run step (.new threads) actions s) (hthreads : threads ≤ MIN_THREADS)
    (hstarting : Along step (AtMostStarting k) (.new threads) actions) :
    population Worker.isLive s.workers ≤ MAX_THREADS + k := by
  have hinv := hrun.invariant_along
    (fun s => Counted s ∧ population Worker.isLive s.workers ≤ MAX_THREADS + k) ?_ hstarting ⟨.new threads, ?_⟩
  · exact hinv.2
  · rintro s a s' ⟨hcounted, hbound⟩ hstarting hstep
    refine ⟨step_counted hcounted hstep, ?_⟩
    obtain hle | ⟨halive, hlacks, ⟨code, granted, notified, rfl⟩, hgrown⟩ := step_live hstep
    · exact hle.trans hbound
    · have hactive := hcounted.active halive
      have hlow : s.active_tasks < MAX_THREADS := by
        simp only [TaskPool.lacksWorker, Bool.and_eq_true, decide_eq_true_eq] at hlacks
        exact hlacks.2
      have hsplit := live_eq s.workers
      have hfew := hstarting hlacks
      omega
  · rw [TaskPool.new, population_eq_countP, List.countP_replicate]
    simp only [Worker.isLive, MIN_THREADS, MAX_THREADS] at hthreads ⊢
    grind

instance (s : TaskPool T) : (a : Action T) → Decidable (AtMostStarting k s a)
  | .spawn _ _ _ => inferInstanceAs (Decidable (s.lacksWorker = true → _ ≤ k))
  | .register _ | .finish _ | .look _ | .wake _ | .time_out _ | .resume _ | .unregister _ | .drop => isTrue trivial

/-- The second worker is created while the first has not registered. -/
theorem workers_bounded_two :
    ∃ s, Run step (.new 1) [.spawn 7 true 0, .register 1, .register 0, .spawn 8 true 0] s ∧
      s.active_tasks = 2 ∧ population Worker.isLive s.workers ≤ MAX_THREADS + 1 := by
  obtain ⟨s, hrun, hactive⟩ := exists_run step
    (show ([.spawn 7 true 0, .register 1, .register 0, .spawn 8 true 0].foldlM step (.new 1)).any
      (fun s => s.active_tasks = 2) = true by decide)
  exact ⟨s, hrun, of_decide_eq_true hactive, workers_bounded hrun (by decide) (by decide)⟩

end bounded

section accounted

/-- What has become of the tasks, oldest first. -/
structure Ledger (T : Type) where
  /-- The system allowed no thread for them. -/
  refused : List T
  queued : List T
  taken : List T
  finished : List T

def Ledger.empty : Ledger T :=
  ⟨[], [], [], []⟩

/-- What one step adds to the ledger. -/
def record (l : Ledger T) (s : TaskPool T) : Action T → Ledger T
  | .spawn code granted _ =>
    if s.lacksWorker then if granted then l else { l with refused := l.refused ++ [code] }
    else { l with queued := l.queued ++ [code] }
  | .finish i =>
    match s.workers[i]? with
    | some (.running task) => { l with finished := l.finished ++ [task] }
    | _ => l
  | .look _ | .resume _ => { l with taken := l.taken ++ s.todo.take 1 }
  | _ => l

/-- The task that a worker holds. -/
def Worker.task : Worker T → Multiset T
  | .starting (some f) => {f}
  | .running task => {task}
  | _ => 0

/-- Every task spawned in a run, oldest first. -/
def spawned (actions : List (Action T)) : List T :=
  actions.filterMap fun
    | .spawn code _ _ => some code
    | _ => none

/-- Every task so far is in one place. -/
def everywhere (s : TaskPool T) (l : Ledger T) : Multiset T :=
  l.refused + l.finished + s.todo + (s.workers.map Worker.task).sum

theorem spawned_append {first second : List (Action T)} :
    spawned (first ++ second) = spawned first ++ spawned second :=
  List.filterMap_append

theorem tasks_set {workers : List (Worker T)} {i : Nat} {old : Worker T} (hi : workers[i]? = some old)
    (new : Worker T) :
    ((workers.set i new).map Worker.task).sum + old.task = (workers.map Worker.task).sum + new.task :=
  sum_map_set Worker.task hi new

/-- A worker without a task takes the front of the queue. -/
theorem pop_front_everywhere {s : TaskPool T} {i : Nat} {old : Worker T} (hi : s.workers[i]? = some old)
    (hold : old.task = 0) (l : Ledger T) :
    everywhere (pop_front s i) { l with taken := l.taken ++ s.todo.take 1 } = everywhere s l := by
  rw [pop_front]
  split
  · rename_i task todo htodo
    have hset := tasks_set hi (.running task)
    rw [hold, add_zero] at hset
    simp only [everywhere, hset, htodo, Worker.task, ← Multiset.cons_coe, ← Multiset.singleton_add]
    abel
  · have hset := tasks_set hi (.waiting (!decide (s.active_tasks ≤ MIN_THREADS)))
    rw [hold, add_zero] at hset
    simp only [everywhere, hset, Worker.task, add_zero]

/-- A move of a worker that keeps its task, or has none. -/
theorem set_everywhere {s : TaskPool T} {i : Nat} {old : Worker T} (hi : s.workers[i]? = some old) (new : Worker T)
    (htask : new.task = old.task) (l : Ledger T) {active_tasks waiting_tasks : Nat} :
    everywhere { s with active_tasks, waiting_tasks, workers := s.workers.set i new } l = everywhere s l := by
  have hset := tasks_set hi new
  rw [htask, add_left_inj] at hset
  simp only [everywhere, hset]

theorem step_everywhere {s s' : TaskPool T} {a : Action T} (l : Ledger T) (hstep : step s a = some s') :
    everywhere s' (record l s a) = everywhere s l + spawned [a] := by
  cases step_progress hstep with
  | created alive lacks =>
    simp only [record, lacks, if_true, everywhere, List.map_append, List.sum_append, List.map_cons, List.map_nil,
      List.sum_cons, List.sum_nil, add_zero, Worker.task]
    exact (add_assoc ..).symm
  | refused alive lacks =>
    simp only [record, lacks, if_true, if_false, Bool.false_eq_true, everywhere, ← Multiset.coe_add]
    simp only [spawned, List.filterMap_cons, List.filterMap_nil]
    abel
  | @queued code granted notified workers alive lacks notify =>
    have htasks : (workers.map Worker.task).sum = (s.workers.map Worker.task).sum := by
      obtain ⟨timed, hi, rfl⟩ | ⟨_, rfl⟩ := notify_one_cases notify
      · simpa [Worker.task] using tasks_set hi (.woken true)
      · rfl
    simp only [record, lacks, if_false, Bool.false_eq_true, everywhere, htasks, ← Multiset.coe_add]
    simp only [spawned, List.filterMap_cons, List.filterMap_nil]
    abel
  | @register i initial_fn hi =>
    exact (set_everywhere hi _ (by cases initial_fn <;> rfl) l).trans (add_zero _).symm
  | @finish i task hi =>
    have hset := tasks_set hi .looking
    simp only [Worker.task, add_zero] at hset
    simp only [record, hi, everywhere, ← Multiset.coe_add, ← hset, spawned, List.filterMap_cons, List.filterMap_nil,
      Multiset.coe_singleton, Multiset.coe_nil, add_zero]
    abel
  | look hi => exact (pop_front_everywhere hi rfl l).trans (add_zero _).symm
  | wake hi => exact (set_everywhere hi (.woken true) rfl l).trans (add_zero _).symm
  | time_out hi => exact (set_everywhere hi (.woken false) rfl l).trans (add_zero _).symm
  | @leave i hi empty =>
    have hrecord : record l s (.resume i) = l := by
      simp only [record, empty, List.take_nil, List.append_nil]
    rw [hrecord]
    exact (set_everywhere hi .leaving rfl l).trans (add_zero _).symm
  | resume hi =>
    have hpop := pop_front_everywhere (s := { s with waiting_tasks := s.waiting_tasks - 1 }) hi rfl l
    exact hpop.trans (add_zero _).symm
  | unregister hi => exact (set_everywhere hi .gone rfl l).trans (add_zero _).symm
  | drop alive =>
    have htask : Worker.task ∘ Worker.wakeUp = (Worker.task : Worker T → Multiset T) := by
      funext worker
      cases worker <;> rfl
    simp only [record, everywhere, List.map_map, htask]
    exact (add_zero _).symm

theorem pop_front_todo (s : TaskPool T) (i : Nat) : s.todo.take 1 ++ (pop_front s i).todo = s.todo := by
  rw [pop_front]
  split
  · rename_i task todo htodo
    rw [htodo]
    rfl
  · rename_i htodo
    rw [htodo]
    rfl

theorem step_fifo {s s' : TaskPool T} {a : Action T} {l : Ledger T} (h : l.queued = l.taken ++ s.todo)
    (hstep : step s a = some s') : (record l s a).queued = (record l s a).taken ++ s'.todo := by
  cases step_progress hstep with
  | created alive lacks | refused alive lacks =>
    simp only [record, lacks, if_true, Bool.false_eq_true, if_false]
    exact h
  | queued alive lacks notify =>
    simp only [record, lacks, Bool.false_eq_true, if_false, h, List.append_assoc]
  | finish hi =>
    simp only [record, hi]
    exact h
  | look hi =>
    simp only [record, h, List.append_assoc, pop_front_todo]
  | leave hi empty =>
    simp only [record, h, empty, List.take_nil, List.append_nil]
  | @resume i received hi =>
    have hpop := pop_front_todo { s with waiting_tasks := s.waiting_tasks - 1 } i
    simp only [record, h, List.append_assoc]
    rw [hpop]
  | register hi | wake hi | time_out hi | unregister hi => exact h
  | drop alive => exact h

/-- Every task spawned was refused for want of a thread, is queued, is in the hands of one
worker or is finished, once, and the queue gives its tasks out in the order they came. -/
theorem every_task_accounted {threads : Nat} {actions : List (Action T)} {s : TaskPool T} {l : Ledger T}
    (hrun : Run (traced step record) (.new threads, .empty) actions (s, l)) :
    (spawned actions : Multiset T) = l.refused + l.finished + s.todo + (s.workers.map Worker.task).sum ∧
      l.queued = l.taken ++ s.todo := by
  constructor
  · change (spawned actions : Multiset T) = everywhere (s, l).1 (s, l).2
    induction actions using List.reverseRecOn generalizing s l with
    | nil =>
      obtain ⟨rfl, rfl⟩ := Prod.mk.inj (run_nil.mp hrun)
      simp [everywhere, TaskPool.new, Ledger.empty, spawned, Worker.task]
    | append_singleton actions a ih =>
      obtain ⟨⟨mid, l'⟩, hmid, hlast⟩ := run_append.mp hrun
      obtain ⟨hstep, rfl⟩ := traced_eq_some.mp (run_singleton.mp hlast)
      rw [spawned_append, ← Multiset.coe_add, ih hmid]
      exact (step_everywhere l' hstep).symm
  · refine hrun.invariant (fun sl => sl.2.queued = sl.2.taken ++ sl.1.todo) ?_ rfl
    rintro ⟨s, l⟩ a ⟨s', l'⟩ h hstep
    obtain ⟨hstep, rfl⟩ := traced_eq_some.mp hstep
    exact step_fifo h hstep

theorem every_task_accounted_two :
    ∃ s l, Run (traced step record) (.new 1, .empty) twoTasks (s, l) ∧ l.finished = [7] ∧
      ((spawned twoTasks : Multiset Nat) = l.refused + l.finished + s.todo + (s.workers.map Worker.task).sum ∧
        l.queued = l.taken ++ s.todo) := by
  obtain ⟨⟨s, l⟩, hrun, hfinished⟩ := exists_run (traced step record)
    (show (twoTasks.foldlM (traced step record) (.new 1, .empty)).any (fun sl => sl.2.finished = [7]) = true
      by decide)
  exact ⟨s, l, hrun, of_decide_eq_true hfinished, every_task_accounted hrun⟩

end accounted

end tiny_http.task_pool
