import YtWebsub.Base.Machine

namespace monitor

variable {A M : Type} [AddCommMonoid M]

/-- What a list of threads adds up to when one of them moves. -/
theorem sum_map_set (f : A → M) {threads : List A} {i : Nat} {old : A} (hi : threads[i]? = some old) (new : A) :
    ((threads.set i new).map f).sum + f old = (threads.map f).sum + f new := by
  induction threads generalizing i with
  | nil => simp at hi
  | cons thread threads ih =>
    cases i with
    | zero =>
      simp only [List.getElem?_cons_zero, Option.some.injEq] at hi
      simp only [hi, List.set_cons_zero, List.map_cons, List.sum_cons]
      abel
    | succ i =>
      simp only [List.getElem?_cons_succ] at hi
      simp only [List.set_cons_succ, List.map_cons, List.sum_cons]
      rw [add_assoc, ih hi, add_assoc]

/-- How many threads are in one of the given phases. -/
def population (phase : A → Bool) (threads : List A) : Nat :=
  (threads.map fun thread => (phase thread).toNat).sum

variable {threads : List A} (phase : A → Bool)

@[simp]
theorem population_nil : population phase [] = 0 :=
  rfl

@[simp]
theorem population_cons (thread : A) :
    population phase (thread :: threads) = (phase thread).toNat + population phase threads := by
  rw [population, List.map_cons, List.sum_cons, ← population]

theorem population_eq_countP : population phase threads = threads.countP phase := by
  induction threads with
  | nil => rfl
  | cons thread threads ih =>
    rw [population_cons, ih, List.countP_cons]
    cases phase thread <;> simp [Nat.add_comm]

theorem population_pos : 0 < population phase threads ↔ ∃ thread ∈ threads, phase thread = true := by
  rw [population_eq_countP, List.countP_pos_iff]

theorem population_set {i : Nat} {old : A} (hi : threads[i]? = some old) (new : A) :
    population phase (threads.set i new) + (phase old).toNat = population phase threads + (phase new).toNat :=
  sum_map_set _ hi new

theorem population_set_pos {i : Nat} {old new : A} (hi : threads[i]? = some old) (hnew : phase new = true) :
    0 < population phase (threads.set i new) := by
  obtain ⟨hlt, _⟩ := List.getElem?_eq_some_iff.mp hi
  exact (population_pos phase).mpr ⟨new, List.mem_set hlt new, hnew⟩

theorem population_append {others : List A} :
    population phase (threads ++ others) = population phase threads + population phase others := by
  simp [population]

theorem population_le {other : A → Bool} (h : ∀ thread ∈ threads, phase thread = true → other thread = true) :
    population phase threads ≤ population other threads := by
  rw [population_eq_countP, population_eq_countP]
  exact List.countP_mono_left h

theorem population_map {f : A → A} (h : ∀ thread, phase (f thread) = phase thread) :
    population phase (threads.map f) = population phase threads := by
  simp only [population, List.map_map, Function.comp_def, h]

/-- What a queue under a mutex with a condition variable counts: the items, the threads
that wait, and those woken that have not looked at the queue yet. -/
structure Counts where
  queued : Nat
  parked : Nat
  woken : Nat

/-- What a thread that holds the mutex can do. -/
inductive Move where
  /-- Adds an item and notifies one waiting thread, if there is one. -/
  | push
  | notify_all
  /-- A wait ends without a notification. -/
  | wake
  /-- A wait ends, and its thread will not look. -/
  | give_up
  | take
  | park
  | woken_take
  | woken_park
  | woken_leave

def move (c : Counts) : Move → Option Counts
  | .push => some ⟨c.queued + 1, c.parked - 1, c.woken + min c.parked 1⟩
  | .notify_all => some ⟨c.queued, 0, c.woken + c.parked⟩
  | .wake => if 0 < c.parked then some ⟨c.queued, c.parked - 1, c.woken + 1⟩ else none
  | .give_up => if 0 < c.parked then some ⟨c.queued, c.parked - 1, c.woken⟩ else none
  | .take => if 0 < c.queued then some ⟨c.queued - 1, c.parked, c.woken⟩ else none
  | .park => if c.queued = 0 then some ⟨0, c.parked + 1, c.woken⟩ else none
  | .woken_take => if 0 < c.queued ∧ 0 < c.woken then some ⟨c.queued - 1, c.parked, c.woken - 1⟩ else none
  | .woken_park => if c.queued = 0 ∧ 0 < c.woken then some ⟨0, c.parked + 1, c.woken - 1⟩ else none
  | .woken_leave => if c.queued = 0 ∧ 0 < c.woken then some ⟨0, c.parked, c.woken - 1⟩ else none

/-- No item waits for a thread that is not on its way: while a thread is parked, every item
has a woken thread of its own. -/
def Attended (c : Counts) : Prop :=
  0 < c.parked → c.queued ≤ c.woken

theorem Attended.of_move {c c' : Counts} {m : Move} (h : Attended c) (hmove : move c m = some c') : Attended c' := by
  cases m with
  | push | notify_all =>
    obtain rfl := Option.some.inj hmove
    simp only [Attended] at h ⊢
    omega
  | wake | give_up | take | park | woken_take | woken_park | woken_leave =>
    simp only [move, Option.ite_none_right_eq_some, Option.some.injEq] at hmove
    obtain ⟨hguard, rfl⟩ := hmove
    simp only [Attended] at h ⊢
    omega

theorem Attended.run {c c' : Counts} {moves : List Move} (h : Attended c) (hrun : machine.Run move c moves c') :
    Attended c' :=
  hrun.invariant Attended (fun _ _ _ => Attended.of_move) h

end monitor
