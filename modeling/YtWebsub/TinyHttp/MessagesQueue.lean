import YtWebsub.Base.Monitor

open machine monitor

namespace tiny_http.messages_queue

variable {T : Type}

inductive Control (T : Type) where
  | elem (value : T)
  | unblock
deriving DecidableEq

/-- Where a thread is that takes messages. A wait has a duration left where `pop_timeout`
was called, and none where `pop` was. -/
inductive Caller where
  | outside
  | waiting (duration : Option Nat)
  | woken (duration : Option Nat)
  | timed_out
deriving DecidableEq

def Caller.isWaiting : Caller → Bool
  | .waiting _ => true
  | .outside | .woken _ | .timed_out => false

def Caller.isWoken : Caller → Bool
  | .woken _ => true
  | .outside | .waiting _ | .timed_out => false

structure MessagesQueue (T : Type) where
  queue : List (Control T)
  callers : List Caller
  /-- Everything taken so far, with the caller that took it. -/
  popped : List (Nat × Control T)
deriving DecidableEq

def MessagesQueue.init (callers : Nat) : MessagesQueue T where
  queue := []
  callers := List.replicate callers .outside
  popped := []

inductive Action (T : Type) where
  /-- `notified` is the thread that `notify_one` wakes if threads wait. -/
  | push (value : T) (notified : Nat)
  | unblock (notified : Nat)
  | pop (i : Nat)
  | try_pop (i : Nat)
  | pop_timeout (i : Nat) (timeout : Nat)
  /-- A wait ends without a notification. -/
  | wake (i : Nat)
  | time_out (i : Nat)
  /-- A woken thread has the lock again, `elapsed` after it began to wait. -/
  | resume (i : Nat) (elapsed : Nat)

def notify_one (callers : List Caller) (notified : Nat) : Option (List Caller) :=
  match callers[notified]? with
  | some (.waiting duration) => some (callers.set notified (.woken duration))
  | _ => if callers.any Caller.isWaiting then none else some callers

def push_back (s : MessagesQueue T) (control : Control T) (notified : Nat) : Option (MessagesQueue T) :=
  (notify_one s.callers notified).map fun callers => { s with queue := s.queue ++ [control], callers }

/-- The front of the queue is taken by thread `i`, which goes to `otherwise` where there is none. -/
def pop_front (s : MessagesQueue T) (i : Nat) (otherwise : Caller) : MessagesQueue T :=
  match s.queue with
  | control :: queue =>
    { queue, callers := s.callers.set i .outside, popped := s.popped ++ [(i, control)] }
  | [] => { s with callers := s.callers.set i otherwise }

/-- `pop_timeout` does not wait again for less than a millisecond. -/
def MIN_DURATION : Nat := 1000000

def step (s : MessagesQueue T) : Action T → Option (MessagesQueue T)
  | .push value notified => push_back s (.elem value) notified
  | .unblock notified => push_back s .unblock notified
  | .pop i => if s.callers[i]? = some .outside then some (pop_front s i (.waiting none)) else none
  | .try_pop i => if s.callers[i]? = some .outside then some (pop_front s i .outside) else none
  | .pop_timeout i timeout =>
    if s.callers[i]? = some .outside then some (pop_front s i (.waiting (some timeout))) else none
  | .wake i =>
    match s.callers[i]? with
    | some (.waiting duration) => some { s with callers := s.callers.set i (.woken duration) }
    | _ => none
  | .time_out i =>
    match s.callers[i]? with
    | some (.waiting (some _)) => some { s with callers := s.callers.set i .timed_out }
    | _ => none
  | .resume i elapsed =>
    match s.callers[i]? with
    | some (.woken none) => some (pop_front s i (.waiting none))
    | some (.woken (some duration)) =>
      if duration - elapsed < MIN_DURATION then some { s with callers := s.callers.set i .outside }
      else some (pop_front s i (.waiting (some (duration - elapsed))))
    | some .timed_out => some { s with callers := s.callers.set i .outside }
    | _ => none

/-- Everything pushed in a run, oldest first. -/
def pushed (actions : List (Action T)) : List (Control T) :=
  actions.filterMap fun
    | .push value _ => some (.elem value)
    | .unblock _ => some .unblock
    | _ => none

section order

theorem pushed_append {first second : List (Action T)} :
    pushed (first ++ second) = pushed first ++ pushed second :=
  List.filterMap_append

theorem pop_front_order (s : MessagesQueue T) (i : Nat) (otherwise : Caller) :
    (pop_front s i otherwise).popped.map Prod.snd ++ (pop_front s i otherwise).queue =
      s.popped.map Prod.snd ++ s.queue := by
  rw [pop_front]
  split
  · rename_i control queue hqueue
    simp [hqueue]
  · rfl

theorem push_back_order {s s' : MessagesQueue T} {control : Control T} {notified : Nat}
    (h : push_back s control notified = some s') :
    s'.popped.map Prod.snd ++ s'.queue = s.popped.map Prod.snd ++ s.queue ++ [control] := by
  obtain ⟨callers, _, rfl⟩ := Option.map_eq_some_iff.mp h
  exact (List.append_assoc ..).symm

theorem step_order {s s' : MessagesQueue T} {a : Action T} (hstep : step s a = some s') :
    s'.popped.map Prod.snd ++ s'.queue = s.popped.map Prod.snd ++ s.queue ++ pushed [a] := by
  cases a with
  | push value notified => exact push_back_order hstep
  | unblock notified => exact push_back_order hstep
  | pop i | try_pop i | pop_timeout i timeout =>
    obtain ⟨_, hstep⟩ := Option.ite_none_right_eq_some.mp hstep
    obtain rfl := Option.some.inj hstep
    simpa [pushed] using pop_front_order s i _
  | wake i | time_out i =>
    simp only [step] at hstep
    split at hstep
    · obtain rfl := Option.some.inj hstep
      exact (List.append_nil _).symm
    · cases hstep
  | resume i elapsed =>
    simp only [step] at hstep
    split at hstep
    · obtain rfl := Option.some.inj hstep
      simpa [pushed] using pop_front_order s i _
    · split at hstep <;> obtain rfl := Option.some.inj hstep
      · exact (List.append_nil _).symm
      · simpa [pushed] using pop_front_order s i _
    · obtain rfl := Option.some.inj hstep
      exact (List.append_nil _).symm
    · cases hstep

/-- Every message is taken by one caller, once, in the order of the pushes: nothing is
lost, and nothing delivered to two. -/
theorem messages_taken_in_order {callers : Nat} {actions : List (Action T)} {s : MessagesQueue T}
    (hrun : Run step (.init callers) actions s) : pushed actions = s.popped.map Prod.snd ++ s.queue := by
  induction actions using List.reverseRecOn generalizing s with
  | nil =>
    obtain rfl := run_nil.mp hrun
    rfl
  | append_singleton actions a ih =>
    obtain ⟨mid, hmid, hlast⟩ := run_append.mp hrun
    rw [pushed_append, ih hmid, step_order (run_singleton.mp hlast)]

/-- Two workers wait; a request wakes the second, the first comes before it, and the second
takes what is pushed next. -/
def twoWorkers : List (Action Nat) :=
  [.pop 0, .pop 1, .push 7 1, .wake 0, .resume 0 0, .resume 1 0, .push 8 1, .resume 1 0]

theorem messages_taken_in_order_two_workers :
    ∃ s, Run step (.init 2) twoWorkers s ∧ s.popped = [(0, .elem 7), (1, .elem 8)] ∧
      pushed twoWorkers = s.popped.map Prod.snd ++ s.queue := by
  obtain ⟨s, hrun, hpopped⟩ := exists_run step
    (show (twoWorkers.foldlM step (.init 2)).any (fun s => s.popped = [(0, .elem 7), (1, .elem 8)]) = true by decide)
  exact ⟨s, hrun, of_decide_eq_true hpopped, messages_taken_in_order hrun⟩

end order

section attended

def counts (s : MessagesQueue T) : Counts where
  queued := s.queue.length
  parked := population Caller.isWaiting s.callers
  woken := population Caller.isWoken s.callers

/-- No `pop_timeout` gives up after a notification while there are messages. -/
def KeepsLooking (s : MessagesQueue T) : Action T → Prop
  | .resume i elapsed =>
    ∀ duration, s.callers[i]? = some (.woken (some duration)) → duration - elapsed < MIN_DURATION → s.queue = []
  | _ => True

/-- What one caller's change of place does to the counts. -/
theorem set_caller {callers : List Caller} {i : Nat} {old : Caller} (hi : callers[i]? = some old) (new : Caller) :
    population Caller.isWaiting (callers.set i new) + old.isWaiting.toNat =
        population Caller.isWaiting callers + new.isWaiting.toNat ∧
      population Caller.isWoken (callers.set i new) + old.isWoken.toNat =
        population Caller.isWoken callers + new.isWoken.toNat :=
  ⟨population_set _ hi new, population_set _ hi new⟩

theorem pop_front_moves {s : MessagesQueue T} {i : Nat} (hi : s.callers[i]? = some .outside) {otherwise : Caller}
    (hotherwise : otherwise = .outside ∨ ∃ duration, otherwise = .waiting duration) :
    ∃ moves, Run move (counts s) moves (counts (pop_front s i otherwise)) := by
  cases hqueue : s.queue with
  | cons control queue =>
    refine ⟨[.take], run_singleton.mpr ?_⟩
    obtain ⟨hwaiting, hwoken⟩ := set_caller hi .outside
    simp only [pop_front, counts, move, hqueue, List.length_cons]
    simp_all
  | nil =>
    obtain ⟨hwaiting, hwoken⟩ := set_caller hi otherwise
    obtain rfl | ⟨duration, rfl⟩ := hotherwise
    · refine ⟨[], run_nil.mpr ?_⟩
      simp only [pop_front, counts, hqueue]
      simp_all
    · refine ⟨[.park], run_singleton.mpr ?_⟩
      simp only [Caller.isWaiting, Caller.isWoken, Bool.toNat_false, Bool.toNat_true] at hwaiting hwoken
      simp only [pop_front, counts, move, hqueue, List.length_nil, if_true]
      simp_all

theorem pop_front_woken_moves {s : MessagesQueue T} {i : Nat} {duration next : Option Nat}
    (hi : s.callers[i]? = some (.woken duration)) :
    ∃ moves, Run move (counts s) moves (counts (pop_front s i (.waiting next))) := by
  cases hqueue : s.queue with
  | cons control queue =>
    refine ⟨[.woken_take], run_singleton.mpr ?_⟩
    obtain ⟨hwaiting, hwoken⟩ := set_caller hi .outside
    simp only [Caller.isWaiting, Caller.isWoken, Bool.toNat_false, Bool.toNat_true] at hwaiting hwoken
    simp only [pop_front, counts, move, hqueue, List.length_cons]
    grind
  | nil =>
    refine ⟨[.woken_park], run_singleton.mpr ?_⟩
    obtain ⟨hwaiting, hwoken⟩ := set_caller hi (.waiting next)
    simp only [Caller.isWaiting, Caller.isWoken, Bool.toNat_false, Bool.toNat_true] at hwaiting hwoken
    simp only [pop_front, counts, move, hqueue, List.length_nil]
    grind

theorem notify_one_moves {callers callers' : List Caller} {notified : Nat}
    (h : notify_one callers notified = some callers') :
    population Caller.isWaiting callers' = population Caller.isWaiting callers - 1 ∧
      population Caller.isWoken callers' =
        population Caller.isWoken callers + min (population Caller.isWaiting callers) 1 := by
  simp only [notify_one] at h
  split at h
  · rename_i duration hi
    obtain rfl := Option.some.inj h
    obtain ⟨hwaiting, hwoken⟩ := set_caller hi (.woken duration)
    simp only [Caller.isWaiting, Caller.isWoken, Bool.toNat_false, Bool.toNat_true] at hwaiting hwoken
    omega
  · split at h
    · cases h
    · rename_i hnone
      obtain rfl := Option.some.inj h
      have hzero : population Caller.isWaiting callers = 0 := by
        by_contra hpos
        obtain ⟨caller, hmem, hwaits⟩ := (population_pos _).mp (Nat.pos_of_ne_zero hpos)
        exact hnone (List.any_eq_true.mpr ⟨caller, hmem, hwaits⟩)
      omega

theorem push_back_moves {s s' : MessagesQueue T} {control : Control T} {notified : Nat}
    (h : push_back s control notified = some s') : ∃ moves, Run move (counts s) moves (counts s') := by
  obtain ⟨callers, hcallers, rfl⟩ := Option.map_eq_some_iff.mp h
  obtain ⟨hwaiting, hwoken⟩ := notify_one_moves hcallers
  refine ⟨[.push], run_singleton.mpr ?_⟩
  simp only [move, counts, hwaiting, hwoken, List.length_append, List.length_singleton]

theorem step_moves {s s' : MessagesQueue T} {a : Action T} (hkeeps : KeepsLooking s a) (hstep : step s a = some s') :
    ∃ moves, Run move (counts s) moves (counts s') := by
  cases a with
  | push value notified => exact push_back_moves hstep
  | unblock notified => exact push_back_moves hstep
  | pop i =>
    obtain ⟨hi, hstep⟩ := Option.ite_none_right_eq_some.mp hstep
    obtain rfl := Option.some.inj hstep
    exact pop_front_moves hi (.inr ⟨none, rfl⟩)
  | try_pop i =>
    obtain ⟨hi, hstep⟩ := Option.ite_none_right_eq_some.mp hstep
    obtain rfl := Option.some.inj hstep
    exact pop_front_moves hi (.inl rfl)
  | pop_timeout i timeout =>
    obtain ⟨hi, hstep⟩ := Option.ite_none_right_eq_some.mp hstep
    obtain rfl := Option.some.inj hstep
    exact pop_front_moves hi (.inr ⟨some timeout, rfl⟩)
  | wake i =>
    simp only [step] at hstep
    split at hstep
    · rename_i duration hi
      obtain rfl := Option.some.inj hstep
      obtain ⟨hwaiting, hwoken⟩ := set_caller hi (.woken duration)
      simp only [Caller.isWaiting, Caller.isWoken, Bool.toNat_false, Bool.toNat_true] at hwaiting hwoken
      refine ⟨[.wake], run_singleton.mpr ?_⟩
      simp only [counts, move]
      grind
    · cases hstep
  | time_out i =>
    simp only [step] at hstep
    split at hstep
    · rename_i duration hi
      obtain rfl := Option.some.inj hstep
      obtain ⟨hwaiting, hwoken⟩ := set_caller hi .timed_out
      simp only [Caller.isWaiting, Caller.isWoken, Bool.toNat_false, Bool.toNat_true] at hwaiting hwoken
      refine ⟨[.give_up], run_singleton.mpr ?_⟩
      simp only [counts, move]
      grind
    · cases hstep
  | resume i elapsed =>
    simp only [step] at hstep
    split at hstep
    · rename_i hi
      obtain rfl := Option.some.inj hstep
      exact pop_front_woken_moves hi
    · rename_i duration hi
      split at hstep <;> obtain rfl := Option.some.inj hstep
      · rename_i hshort
        have hempty := hkeeps duration hi hshort
        obtain ⟨hwaiting, hwoken⟩ := set_caller hi .outside
        simp only [Caller.isWaiting, Caller.isWoken, Bool.toNat_false, Bool.toNat_true] at hwaiting hwoken
        refine ⟨[.woken_leave], run_singleton.mpr ?_⟩
        simp only [counts, move, hempty, List.length_nil]
        grind
      · exact pop_front_woken_moves hi
    · rename_i hi
      obtain rfl := Option.some.inj hstep
      obtain ⟨hwaiting, hwoken⟩ := set_caller hi .outside
      refine ⟨[], run_nil.mpr ?_⟩
      simp_all [counts, Caller.isWaiting, Caller.isWoken]
    · cases hstep

/-- While a caller waits, each message has a woken caller that is on its way to it: no
notification is lost, in every run in which no `pop_timeout` keeps one for itself. -/
theorem messages_attended {callers : Nat} {actions : List (Action T)} {s : MessagesQueue T}
    (hrun : Run step (.init callers) actions s) (hkeeps : Along step KeepsLooking (.init callers) actions) {i : Nat}
    {duration : Option Nat} (hi : s.callers[i]? = some (.waiting duration)) :
    s.queue.length ≤ population Caller.isWoken s.callers := by
  obtain ⟨moves, hmoves⟩ := hrun.simulated (fun _ => True) counts
    (fun _ _ _ _ hkeeps hstep => ⟨trivial, step_moves hkeeps hstep⟩) hkeeps trivial
  have hinit : Attended (counts (.init callers : MessagesQueue T)) := fun _ => Nat.zero_le _
  refine hinit.run hmoves ?_
  exact (population_pos _).mpr ⟨_, List.mem_of_getElem? hi, rfl⟩

theorem messages_attended_two_workers :
    ∃ s, Run step (.init 2) (twoWorkers.take 3) s ∧ s.callers[0]? = some (.waiting none) ∧
      s.queue.length ≤ population Caller.isWoken s.callers := by
  obtain ⟨s, hrun, hwaits⟩ := exists_run step
    (show ((twoWorkers.take 3).foldlM step (.init 2)).any (fun s => s.callers[0]? = some (.waiting none)) = true
      by decide)
  refine ⟨s, hrun, of_decide_eq_true hwaits, messages_attended hrun ?_ (of_decide_eq_true hwaits)⟩
  exact .of_forall (by simp [twoWorkers, KeepsLooking]) _

/-- The notified `pop_timeout` has half a millisecond left, gives up, and the other caller
sleeps on beside the message. -/
theorem pop_timeout_keeps_notification :
    Run step (.init 2) [.pop 0, .pop_timeout 1 5000000, .push 7 1, .resume 1 4500000]
      ⟨[.elem 7], [.waiting none, .outside], []⟩ :=
  rfl

end attended

end tiny_http.messages_queue
