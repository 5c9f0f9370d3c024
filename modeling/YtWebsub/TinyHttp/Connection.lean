import YtWebsub.Base.Machine
import YtWebsub.Base.Utf8

open machine rust rust.utf8

namespace tiny_http.connection

/-- Who answers through a writer: a handler that was given a request, or the thread of the
connection itself. -/
inductive Holder where
  | handler
  | thread
deriving DecidableEq

/-- A `SequentialWriter`, and the request that it belongs to. -/
structure Writer where
  holder : Holder
  /-- It no longer waits for the writer before it. -/
  triggered : Bool
  dropped : Bool
  written : Bytes
  /-- The completion of the request has been announced. -/
  notified : Bool
  /-- The request still holds the reader of the connection, for a body not yet read. -/
  reading : Bool
deriving DecidableEq

/-- Where the thread of the connection is. -/
inductive Thread where
  /-- In `read`, or before it. -/
  | reading
  /-- Waits for the completion of the request just pushed. -/
  | waiting
  /-- Answers a request that it could not read, through writer `i`. -/
  | rejecting (i : Nat)
  /-- Answers request `i` through the next writer, with the request still in its hands. -/
  | unsupported (i : Nat)
  /-- Drops request `i`, which answers it. -/
  | discarding (i : Nat)
  /-- Drops the iterator, and with it its reader. -/
  | closing
  | closed
deriving DecidableEq

/-- The writer that the thread writes through. -/
def Thread.current : Thread → Option Nat
  | .rejecting i => some i
  | .unsupported i => some (i + 1)
  | .discarding i => some i
  | .reading | .waiting | .closing | .closed => none

structure Connection where
  secure : Bool
  writers : List Writer
  output : Bytes
  thread : Thread
  /-- Announced, and not received yet. -/
  notifications : Nat
  aborted : Bool
deriving DecidableEq

def Connection.new (secure : Bool) : Connection where
  secure := secure
  writers := []
  output := []
  thread := .reading
  notifications := 0
  aborted := false

inductive Action where
  /-- A request is read and pushed; `body` says whether it keeps the reader for its body. -/
  | request (body : Bool)
  /-- A request is malformed, timed out or has an `Expect` that is not understood. A writer
  has been made for it already, and is dropped, where its head could be read. -/
  | reject (orphan : Bool)
  /-- A request has a version above 1.1. -/
  | unsupported (body : Bool)
  /-- No request will follow, or none that can be answered. -/
  | close (orphan : Bool)
  | receive
  /-- No completion within 300 seconds. -/
  | give_up
  | leave
  | write (i : Nat) (buf : Bytes)
  /-- The thread has printed its response. -/
  | printed
  /-- `respond` drops its writer. -/
  | finish (i : Nat)
  | notify (i : Nat)
  /-- The request is dropped. -/
  | release (i : Nat)
deriving DecidableEq

/-- `SequentialWriterBuilder::next`. -/
def next_writer (writers : List Writer) (holder : Holder) (reading : Bool) : Writer where
  holder := holder
  triggered := writers.isEmpty
  dropped := false
  written := []
  notified := false
  reading := reading

/-- The reader has come back from every request. -/
def Connection.free (s : Connection) : Bool :=
  s.writers.all fun w => !w.reading

/-- A message from the writer before `i` is there to be received. -/
def turn (writers : List Writer) (i : Nat) : Bool :=
  match i with
  | 0 => true
  | i + 1 => (writers[i]?).any Writer.dropped

def Connection.push (s : Connection) (w : Writer) : Connection :=
  { s with writers := s.writers ++ [w] }

/-- `new_request` fails, after the writer for the request has been made. -/
def Connection.discard (s : Connection) (orphan : Bool) : Connection :=
  if orphan then s.push { next_writer s.writers .thread false with dropped := true } else s

def Connection.set (s : Connection) (i : Nat) (w : Writer) : Connection :=
  { s with writers := s.writers.set i w }

/-- What the thread does when its response is printed through writer `w`. -/
def printed (s : Connection) (i : Nat) (w : Writer) : Connection :=
  let s := s.set i { w with dropped := true, reading := false }
  match s.thread with
  | .rejecting _ => { s with thread := .closing }
  | .unsupported j => { s with thread := .discarding j }
  | _ => { s with thread := .reading }

def step (s : Connection) (a : Action) : Option Connection :=
  if s.aborted then none
  else
    match a with
    | .request body =>
      if s.thread = .reading ∧ s.free = true then
        some
          { s.push (next_writer s.writers .handler body) with
            thread := if s.secure then .waiting else .reading }
      else none
    | .reject orphan =>
      if s.thread = .reading ∧ s.free = true then
        let s := s.discard orphan
        some { s.push (next_writer s.writers .thread false) with thread := .rejecting s.writers.length }
      else none
    | .unsupported body =>
      if s.thread = .reading ∧ s.free = true then
        let i := s.writers.length
        let s := s.push (next_writer s.writers .thread body)
        some { s.push (next_writer s.writers .thread false) with thread := .unsupported i }
      else none
    | .close orphan => if s.thread = .reading then some { s.discard orphan with thread := .closing } else none
    | .receive =>
      if s.thread = .waiting ∧ 0 < s.notifications then
        some { s with thread := .reading, notifications := s.notifications - 1 }
      else none
    | .give_up =>
      if s.thread = .waiting ∧ s.notifications = 0 then some { s with thread := .closing } else none
    | .leave => if s.thread = .closing ∧ s.free = true then some { s with thread := .closed } else none
    | .write i buf =>
      (s.writers[i]?).bind fun w =>
        if w.dropped = false ∧ (w.triggered || turn s.writers i) = true ∧
            (w.holder = .handler ∨ s.thread.current = some i) then
          some
            { s.set i { w with triggered := true, written := w.written ++ buf } with
              output := s.output ++ buf }
        else none
    | .printed =>
      s.thread.current.bind fun i => (s.writers[i]?).bind fun w =>
        if w.triggered then some (printed s i w) else none
    | .finish i =>
      (s.writers[i]?).bind fun w =>
        if w.holder = .handler ∧ w.dropped = false ∧ w.triggered = true then
          some (s.set i { w with dropped := true })
        else none
    | .notify i =>
      (s.writers[i]?).bind fun w =>
        if s.secure = true ∧ w.holder = .handler ∧ w.dropped = true ∧ w.notified = false then
          -- the receiver is gone with the thread, and the result of `send` is unwrapped
          if s.thread = .closed then some { s with aborted := true }
          else some { s.set i { w with notified := true } with notifications := s.notifications + 1 }
        else none
    | .release i =>
      (s.writers[i]?).bind fun w =>
        if w.holder = .handler ∧ w.dropped = true ∧ (s.secure = true → w.notified = true) then
          some (s.set i { w with reading := false })
        else none

/-- What a step finds, and what it leaves behind. -/
inductive Progress (s : Connection) : Action → Connection → Prop where
  | request {body : Bool} (thread : s.thread = .reading) (free : s.free = true) :
    Progress s (.request body)
      { s with
        writers := s.writers ++ [next_writer s.writers .handler body]
        thread := if s.secure then .waiting else .reading }
  | reject (thread : s.thread = .reading) (free : s.free = true) :
    Progress s (.reject false)
      { s with
        writers := s.writers ++ [next_writer s.writers .thread false]
        thread := .rejecting s.writers.length }
  | orphan (thread : s.thread = .reading) (free : s.free = true) :
    Progress s (.reject true)
      { s with
        writers :=
          s.writers ++ [{ next_writer s.writers .thread false with dropped := true }] ++
            [{ next_writer s.writers .thread false with triggered := false }]
        thread := .rejecting (s.writers.length + 1) }
  | unsupported {body : Bool} (thread : s.thread = .reading) (free : s.free = true) :
    Progress s (.unsupported body)
      { s with
        writers :=
          s.writers ++ [next_writer s.writers .thread body] ++
            [{ next_writer s.writers .thread false with triggered := false }]
        thread := .unsupported s.writers.length }
  | close (thread : s.thread = .reading) : Progress s (.close false) { s with thread := .closing }
  | break_off (thread : s.thread = .reading) :
    Progress s (.close true)
      { s with
        writers := s.writers ++ [{ next_writer s.writers .thread false with dropped := true }]
        thread := .closing }
  | receive (thread : s.thread = .waiting) (sent : 0 < s.notifications) :
    Progress s .receive { s with thread := .reading, notifications := s.notifications - 1 }
  | give_up (thread : s.thread = .waiting) (sent : s.notifications = 0) :
    Progress s .give_up { s with thread := .closing }
  | leave (thread : s.thread = .closing) (free : s.free = true) : Progress s .leave { s with thread := .closed }
  | write {i : Nat} {buf : Bytes} {w : Writer} (hi : s.writers[i]? = some w) (open_ : w.dropped = false)
      (turn : w.triggered = true ∨ turn s.writers i = true) (holder : w.holder = .handler ∨ s.thread.current = some i) :
    Progress s (.write i buf)
      { s with
        writers := s.writers.set i { w with triggered := true, written := w.written ++ buf }
        output := s.output ++ buf }
  | printed {i : Nat} {w : Writer} (current : s.thread.current = some i) (hi : s.writers[i]? = some w)
      (triggered : w.triggered = true) : Progress s .printed (printed s i w)
  | finish {i : Nat} {w : Writer} (hi : s.writers[i]? = some w) (holder : w.holder = .handler)
      (open_ : w.dropped = false) (triggered : w.triggered = true) :
    Progress s (.finish i) { s with writers := s.writers.set i { w with dropped := true } }
  | notify {i : Nat} {w : Writer} (hi : s.writers[i]? = some w) (secure : s.secure = true)
      (holder : w.holder = .handler) (dropped : w.dropped = true) (silent : w.notified = false)
      (thread : s.thread ≠ .closed) :
    Progress s (.notify i)
      { s with
        writers := s.writers.set i { w with notified := true }
        notifications := s.notifications + 1 }
  | abort {i : Nat} {w : Writer} (hi : s.writers[i]? = some w) (secure : s.secure = true)
      (holder : w.holder = .handler) (dropped : w.dropped = true) (silent : w.notified = false)
      (thread : s.thread = .closed) :
    Progress s (.notify i) { s with aborted := true }
  | release {i : Nat} {w : Writer} (hi : s.writers[i]? = some w) (holder : w.holder = .handler)
      (dropped : w.dropped = true) (notified : s.secure = true → w.notified = true) :
    Progress s (.release i) { s with writers := s.writers.set i { w with reading := false } }

theorem next_writer_snoc (writers : List Writer) (w : Writer) (holder : Holder) (reading : Bool) :
    next_writer (writers ++ [w]) holder reading = { next_writer writers holder reading with triggered := false } := by
  simp [next_writer]

theorem step_progress {s s' : Connection} {a : Action} (hstep : step s a = some s') :
    s.aborted = false ∧ Progress s a s' := by
  obtain ⟨halive, hstep⟩ := Option.ite_none_left_eq_some.mp hstep
  refine ⟨Bool.not_eq_true _ ▸ halive, ?_⟩
  cases a with
  | request body =>
    obtain ⟨⟨hthread, hfree⟩, hstep⟩ := Option.ite_none_right_eq_some.mp hstep
    obtain rfl := Option.some.inj hstep
    exact .request hthread hfree
  | reject orphan =>
    obtain ⟨⟨hthread, hfree⟩, hstep⟩ := Option.ite_none_right_eq_some.mp hstep
    obtain rfl := Option.some.inj hstep
    cases orphan with
    | false => exact .reject hthread hfree
    | true =>
      have h := Progress.orphan hthread hfree
      simpa only [Connection.discard, Connection.push, next_writer_snoc, if_true, List.length_append,
        List.length_singleton] using h
  | unsupported body =>
    obtain ⟨⟨hthread, hfree⟩, hstep⟩ := Option.ite_none_right_eq_some.mp hstep
    obtain rfl := Option.some.inj hstep
    have h := @Progress.unsupported s body hthread hfree
    simpa only [Connection.push, next_writer_snoc] using h
  | close orphan =>
    obtain ⟨hthread, hstep⟩ := Option.ite_none_right_eq_some.mp hstep
    obtain rfl := Option.some.inj hstep
    cases orphan with
    | false => exact .close hthread
    | true => exact .break_off hthread
  | receive =>
    obtain ⟨⟨hthread, hsent⟩, hstep⟩ := Option.ite_none_right_eq_some.mp hstep
    obtain rfl := Option.some.inj hstep
    exact .receive hthread hsent
  | give_up =>
    obtain ⟨⟨hthread, hsent⟩, hstep⟩ := Option.ite_none_right_eq_some.mp hstep
    obtain rfl := Option.some.inj hstep
    exact .give_up hthread hsent
  | leave =>
    obtain ⟨⟨hthread, hfree⟩, hstep⟩ := Option.ite_none_right_eq_some.mp hstep
    obtain rfl := Option.some.inj hstep
    exact .leave hthread hfree
  | write i buf =>
    obtain ⟨w, hi, hstep⟩ := Option.bind_eq_some_iff.mp hstep
    obtain ⟨⟨hopen, hturn, hholder⟩, hstep⟩ := Option.ite_none_right_eq_some.mp hstep
    obtain rfl := Option.some.inj hstep
    exact .write hi hopen (Bool.or_eq_true_iff.mp hturn) hholder
  | printed =>
    obtain ⟨i, hcurrent, hstep⟩ := Option.bind_eq_some_iff.mp hstep
    obtain ⟨w, hi, hstep⟩ := Option.bind_eq_some_iff.mp hstep
    obtain ⟨htriggered, hstep⟩ := Option.ite_none_right_eq_some.mp hstep
    obtain rfl := Option.some.inj hstep
    exact .printed hcurrent hi htriggered
  | finish i =>
    obtain ⟨w, hi, hstep⟩ := Option.bind_eq_some_iff.mp hstep
    obtain ⟨⟨hholder, hopen, htriggered⟩, hstep⟩ := Option.ite_none_right_eq_some.mp hstep
    obtain rfl := Option.some.inj hstep
    exact .finish hi hholder hopen htriggered
  | notify i =>
    obtain ⟨w, hi, hstep⟩ := Option.bind_eq_some_iff.mp hstep
    obtain ⟨⟨hsecure, hholder, hdropped, hsilent⟩, hstep⟩ := Option.ite_none_right_eq_some.mp hstep
    split at hstep
    · rename_i hthread
      obtain rfl := Option.some.inj hstep
      exact .abort hi hsecure hholder hdropped hsilent hthread
    · rename_i hthread
      obtain rfl := Option.some.inj hstep
      exact .notify hi hsecure hholder hdropped hsilent hthread
  | release i =>
    obtain ⟨w, hi, hstep⟩ := Option.bind_eq_some_iff.mp hstep
    obtain ⟨⟨hholder, hdropped, hnotified⟩, hstep⟩ := Option.ite_none_right_eq_some.mp hstep
    obtain rfl := Option.some.inj hstep
    exact .release hi hholder hdropped hnotified

theorem printed_spec (s : Connection) (i : Nat) (w : Writer) :
    (printed s i w).writers = s.writers.set i { w with dropped := true, reading := false } ∧
      (printed s i w).output = s.output ∧ (printed s i w).aborted = s.aborted := by
  rw [printed]
  split <;> exact ⟨rfl, rfl, rfl⟩

section in_order

/-- Used already, or out of use. -/
def Writer.touched (w : Writer) : Prop :=
  w.triggered = true ∨ w.dropped = true

/-- A writer is touched only once every writer before it is dropped, and what is on the wire
is what each has written, one after the other. -/
structure InOrder (writers : List Writer) (output : Bytes) : Prop where
  output : output = writers.flatMap Writer.written
  before : ∀ {i j : Nat} {v w : Writer}, i < j → writers[j]? = some w → w.touched → writers[i]? = some v →
    v.dropped = true
  fresh : ∀ w ∈ writers, w.triggered = false → w.written = []

variable {writers : List Writer} {output : Bytes}

theorem InOrder.nil : InOrder [] [] where
  output := rfl
  before _ hj := by cases hj
  fresh _ hmem := by cases hmem

/-- A writer is added that is not touched, or that has none before it that is open. -/
theorem InOrder.push (h : InOrder writers output) {w : Writer} (hwritten : w.written = [])
    (hbefore : w.touched → ∀ v ∈ writers, v.dropped = true) : InOrder (writers ++ [w]) output where
  output := by
    rw [List.flatMap_append, ← h.output, List.flatMap_singleton, hwritten, List.append_nil]
  before {i j v u} hij hj htouched hi := by
    obtain hlt | rfl | hgt := lt_trichotomy j writers.length
    · rw [List.getElem?_append_left hlt] at hj
      rw [List.getElem?_append_left (hij.trans hlt)] at hi
      exact h.before hij hj htouched hi
    · rw [List.getElem?_concat_length, Option.some.injEq] at hj
      subst hj
      rw [List.getElem?_append_left hij] at hi
      exact hbefore htouched v (List.mem_of_getElem? hi)
    · rw [List.getElem?_eq_none (by simpa using hgt)] at hj
      cases hj
  fresh u hmem htriggered := by
    obtain hmem | hmem := List.mem_append.mp hmem
    · exact h.fresh u hmem htriggered
    · obtain rfl := List.mem_singleton.mp hmem
      exact hwritten

/-- A writer changes that was touched before, writes nothing and stays dropped if it was. -/
theorem InOrder.set (h : InOrder writers output) {i : Nat} {old : Writer} (hi : writers[i]? = some old) (new : Writer)
    (hwritten : new.written = old.written) (htriggered : new.triggered = old.triggered)
    (hdropped : old.dropped = true → new.dropped = true) (htouched : new.touched → old.touched) :
    InOrder (writers.set i new) output where
  output := by
    obtain ⟨hlt, rfl⟩ := List.getElem?_eq_some_iff.mp hi
    rw [h.output, List.set_eq_take_append_cons_drop, if_pos hlt]
    conv_lhs => rw [← List.take_append_drop i writers, List.drop_eq_getElem_cons hlt]
    simp only [List.flatMap_append, List.flatMap_cons, hwritten]
  before {k j v u} hkj hj huntil hk := by
    rw [List.getElem?_set] at hj hk
    grind [InOrder.before]
  fresh u hmem hfresh := by
    obtain hmem | rfl := List.mem_or_eq_of_mem_set hmem
    · exact h.fresh u hmem hfresh
    · rw [hwritten]
      exact h.fresh old (List.mem_of_getElem? hi) (htriggered ▸ hfresh)

/-- What comes after an open writer has not been written. -/
theorem InOrder.written_after (h : InOrder writers output) {i : Nat} {w : Writer} (hi : writers[i]? = some w)
    (hopen : w.dropped = false) : (writers.drop (i + 1)).flatMap Writer.written = [] := by
  rw [List.flatMap_eq_nil_iff]
  intro v hmem
  obtain ⟨k, hk⟩ := List.getElem?_of_mem hmem
  rw [List.getElem?_drop] at hk
  refine h.fresh v (List.mem_of_getElem? hk) ?_
  by_contra htriggered
  have hdropped := h.before (by omega) hk (.inl (eq_true_of_ne_false htriggered)) hi
  rw [hopen] at hdropped
  cases hdropped

theorem InOrder.turn_before (h : InOrder writers output) {i k : Nat} {v : Writer} (hturn : turn writers i = true)
    (hki : k < i) (hk : writers[k]? = some v) : v.dropped = true := by
  cases i with
  | zero => omega
  | succ i =>
    rw [turn, Option.any_eq_true] at hturn
    obtain ⟨u, hu, hdropped⟩ := hturn
    obtain hlt | rfl := Nat.lt_succ_iff_lt_or_eq.mp hki
    · exact h.before hlt hu (.inr hdropped) hk
    · rw [hk, Option.some.injEq] at hu
      exact hu ▸ hdropped

/-- A writer whose turn it is writes at the end of the wire. -/
theorem InOrder.write (h : InOrder writers output) {i : Nat} {w : Writer} (hi : writers[i]? = some w)
    (hopen : w.dropped = false) (hturn : w.triggered = true ∨ turn writers i = true) (buf : Bytes) :
    InOrder (writers.set i { w with triggered := true, written := w.written ++ buf }) (output ++ buf) where
  output := by
    have hafter := h.written_after hi hopen
    obtain ⟨hlt, rfl⟩ := List.getElem?_eq_some_iff.mp hi
    rw [h.output, List.set_eq_take_append_cons_drop, if_pos hlt]
    conv_lhs => rw [← List.take_append_drop i writers, List.drop_eq_getElem_cons hlt]
    simp only [List.flatMap_append, List.flatMap_cons, hafter, List.append_nil, List.append_assoc]
  before {k j v u} hkj hj huntil hk := by
    have hearlier : ∀ k v, k < i → writers[k]? = some v → v.dropped = true := fun k v hki hk =>
      hturn.elim (fun htriggered => h.before hki hi (.inl htriggered) hk) (fun hturn => h.turn_before hturn hki hk)
    rw [List.getElem?_set] at hj hk
    grind [InOrder.before]
  fresh u hmem hfresh := by
    obtain hmem | rfl := List.mem_or_eq_of_mem_set hmem
    · exact h.fresh u hmem hfresh
    · cases hfresh

end in_order

section serial

/-- The writers that the thread itself has to drop. -/
def Thread.Holds : Thread → Nat → Prop
  | .rejecting i, j => j = i
  | .unsupported i, j => j = i ∨ j = i + 1
  | .discarding i, j => j = i
  | .reading, _ | .waiting, _ | .closing, _ | .closed, _ => False

/-- The iterator is being dropped, or has been. -/
def Thread.Over (thread : Thread) : Prop :=
  thread = .closing ∨ thread = .closed

/-- On a secure connection one request is under way at a time; `calm` says that none has
been given up. -/
structure Serial (calm : Bool) (s : Connection) : Prop where
  secure : s.secure = true
  dropped : ∀ w ∈ s.writers, w.notified = true → w.dropped = true
  mine : ∀ j w, s.writers[j]? = some w → w.holder = .thread → w.dropped = true ∨ s.thread.Holds j
  answered : ∀ j w, s.writers[j]? = some w → w.holder = .handler →
    w.notified = true ∨ s.thread = .waiting ∧ j + 1 = s.writers.length ∨ calm = false ∧ s.thread.Over
  pending : s.thread = .waiting →
    ∃ w, s.writers[s.writers.length - 1]? = some w ∧ w.holder = .handler ∧ s.notifications = w.notified.toNat
  quiet : s.thread ≠ .waiting → ¬ s.thread.Over → s.notifications = 0

theorem Serial.new (calm : Bool) : Serial calm (.new true) where
  secure := rfl
  dropped _ hmem := by cases hmem
  mine _ _ hj := by cases hj
  answered _ _ hj := by cases hj
  pending hthread := by cases hthread
  quiet _ _ := rfl

variable {calm : Bool} {s : Connection}

/-- Between two requests every writer is dropped. -/
theorem Serial.all_dropped (h : Serial calm s) (hthread : s.thread = .reading) : ∀ w ∈ s.writers, w.dropped = true := by
  intro w hmem
  obtain ⟨j, hj⟩ := List.getElem?_of_mem hmem
  cases hholder : w.holder with
  | thread => simpa [hthread, Thread.Holds] using h.mine j w hj hholder
  | handler =>
    have hanswered := h.answered j w hj hholder
    rw [hthread] at hanswered
    simp only [reduceCtorEq, false_and, Thread.Over, or_self, and_false, or_false] at hanswered
    exact h.dropped w hmem hanswered

/-- A writer changes that keeps its holder and its notification, and stays dropped if it was. -/
theorem Serial.set (h : Serial calm s) {i : Nat} {old : Writer} (hi : s.writers[i]? = some old) (new : Writer)
    (output : Bytes) (hholder : new.holder = old.holder) (hnotified : new.notified = old.notified)
    (hdropped : old.dropped = true → new.dropped = true) :
    Serial calm { s with writers := s.writers.set i new, output } where
  secure := h.secure
  dropped w hmem hsent := by
    obtain hmem | rfl := List.mem_or_eq_of_mem_set hmem
    · exact h.dropped w hmem hsent
    · exact hdropped (h.dropped old (List.mem_of_getElem? hi) (hnotified ▸ hsent))
  mine j w hj hthread := by
    rw [List.getElem?_set] at hj
    grind [Serial.mine]
  answered j w hj hhandler := by
    rw [List.getElem?_set] at hj
    rw [List.length_set]
    grind [Serial.answered]
  pending hthread := by
    obtain ⟨w, hw, hhandler, hcount⟩ := h.pending hthread
    simp only [List.length_set, List.getElem?_set]
    grind
  quiet hwaiting hover := h.quiet hwaiting hover

/-- The thread goes on to wait for the request that it pushed. -/
theorem Serial.request (h : Serial calm s) (hthread : s.thread = .reading) (body : Bool) :
    Serial calm
      { s with writers := s.writers ++ [next_writer s.writers .handler body], thread := .waiting } where
  secure := h.secure
  dropped w hmem hsent := by
    obtain hmem | hmem := List.mem_append.mp hmem
    · exact h.dropped w hmem hsent
    · obtain rfl := List.mem_singleton.mp hmem
      cases hsent
  mine j w hj hholder := by
    obtain hmem | hmem := List.mem_append.mp (List.mem_of_getElem? hj)
    · exact .inl (h.all_dropped hthread w hmem)
    · obtain rfl := List.mem_singleton.mp hmem
      cases hholder
  answered j w hj hholder := by
    rw [List.getElem?_append] at hj
    split at hj
    · have hanswered := h.answered j w hj hholder
      simp only [hthread, Thread.Over, reduceCtorEq, false_and, or_self, and_false, or_false] at hanswered
      exact .inl hanswered
    · refine .inr (.inl ⟨rfl, ?_⟩)
      obtain ⟨hlt, _⟩ := List.getElem?_eq_some_iff.mp hj
      simp only [List.length_append, List.length_singleton] at hlt ⊢
      omega
  pending _ := by
    refine ⟨next_writer s.writers .handler body, ?_, rfl, ?_⟩
    · simp
    · exact h.quiet (by simp [hthread]) (by simp [hthread, Thread.Over])
  quiet hwaiting := absurd rfl hwaiting

/-- The thread makes writers of its own. -/
theorem Serial.own (h : Serial calm s) (hthread : s.thread = .reading) {own : List Writer} {thread : Thread}
    (hown : ∀ w ∈ own, w.holder = .thread ∧ w.notified = false)
    (hholds : ∀ j w, own[j]? = some w → w.dropped = true ∨ thread.Holds (s.writers.length + j))
    (hwaiting : thread ≠ .waiting) : Serial calm { s with writers := s.writers ++ own, thread } where
  secure := h.secure
  dropped w hmem hsent := by
    obtain hmem | hmem := List.mem_append.mp hmem
    · exact h.dropped w hmem hsent
    · rw [(hown w hmem).2] at hsent
      cases hsent
  mine j w hj hholder := by
    rw [List.getElem?_append] at hj
    split at hj
    · exact .inl (h.all_dropped hthread w (List.mem_of_getElem? hj))
    · rename_i hge
      have hhold := hholds _ w hj
      rwa [Nat.add_sub_cancel' (not_lt.mp hge)] at hhold
  answered j w hj hholder := by
    rw [List.getElem?_append] at hj
    split at hj
    · have hanswered := h.answered j w hj hholder
      simp only [hthread, Thread.Over, reduceCtorEq, false_and, or_self, and_false, or_false] at hanswered
      exact .inl hanswered
    · rw [(hown w (List.mem_of_getElem? hj)).1] at hholder
      cases hholder
  pending hthread := absurd hthread hwaiting
  quiet _ _ := h.quiet (by simp [hthread]) (by simp [hthread, Thread.Over])

theorem Serial.close (h : Serial calm s) (hthread : s.thread = .reading) :
    Serial calm { s with thread := .closing } where
  secure := h.secure
  dropped := h.dropped
  mine _ w hj _ := .inl (h.all_dropped hthread w (List.mem_of_getElem? hj))
  answered j w hj hholder := by
    have hanswered := h.answered j w hj hholder
    simp only [hthread, Thread.Over, reduceCtorEq, false_and, or_self, and_false, or_false] at hanswered
    exact .inl hanswered
  pending hthread := by cases hthread
  quiet _ hover := absurd (.inl rfl) hover

theorem Serial.receive (h : Serial calm s) (hthread : s.thread = .waiting) (hsent : 0 < s.notifications) :
    Serial calm { s with thread := .reading, notifications := s.notifications - 1 } := by
  obtain ⟨last, hlast, hhandler, hcount⟩ := h.pending hthread
  have hnotified : last.notified = true := by
    cases hnotified : last.notified with
    | true => rfl
    | false => simp [hcount, hnotified] at hsent
  refine ⟨h.secure, h.dropped, fun j w hj hholder => ?_, fun j w hj hholder => .inl ?_,
    (fun hthread => by cases hthread), fun _ _ => ?_⟩
  · have hmine := h.mine j w hj hholder
    rwa [hthread] at hmine
  · have hanswered := h.answered j w hj hholder
    simp only [hthread, Thread.Over, reduceCtorEq, true_and, or_self, and_false, or_false] at hanswered
    obtain hanswered | hj' := hanswered
    · exact hanswered
    · obtain rfl : j = s.writers.length - 1 := by omega
      rw [hj, Option.some.injEq] at hlast
      exact hlast ▸ hnotified
  · simp [hcount, hnotified]

theorem Serial.give_up (h : Serial false s) (hthread : s.thread = .waiting) :
    Serial false { s with thread := .closing } where
  secure := h.secure
  dropped := h.dropped
  mine j w hj hholder := by
    have hmine := h.mine j w hj hholder
    rwa [hthread] at hmine
  answered _ _ _ _ := .inr (.inr ⟨rfl, .inl rfl⟩)
  pending hthread := by cases hthread
  quiet _ hover := absurd (.inl rfl) hover

theorem Serial.leave (h : Serial calm s) (hthread : s.thread = .closing) :
    Serial calm { s with thread := .closed } where
  secure := h.secure
  dropped := h.dropped
  mine j w hj hholder := by
    have hmine := h.mine j w hj hholder
    rwa [hthread] at hmine
  answered j w hj hholder := by
    have hanswered := h.answered j w hj hholder
    simp only [hthread, Thread.Over, reduceCtorEq, false_and, true_or, and_true, false_or] at hanswered
    exact hanswered.imp_right fun hcalm => .inr ⟨hcalm, .inr rfl⟩
  pending hthread := by cases hthread
  quiet _ hover := absurd (.inr rfl) hover

/-- The thread lets go of the writers that it no longer has to drop. -/
theorem Serial.move (h : Serial calm s) (thread : Thread) (hbusy : s.thread ≠ .waiting ∧ ¬ s.thread.Over)
    (hwaiting : thread ≠ .waiting)
    (hholds : ∀ j w, s.writers[j]? = some w → w.holder = .thread → s.thread.Holds j →
      w.dropped = true ∨ thread.Holds j) :
    Serial calm { s with thread } where
  secure := h.secure
  dropped := h.dropped
  mine j w hj hholder := (h.mine j w hj hholder).elim .inl (hholds j w hj hholder)
  answered j w hj hholder := by
    obtain hanswered | ⟨hthread, _⟩ | ⟨_, hover⟩ := h.answered j w hj hholder
    · exact .inl hanswered
    · exact absurd hthread hbusy.1
    · exact absurd hover hbusy.2
  pending hthread := absurd hthread hwaiting
  quiet _ _ := h.quiet hbusy.1 hbusy.2

/-- The thread has printed its response, and goes on. -/
theorem Serial.printed (h : Serial calm s) {i : Nat} {w : Writer} (hcurrent : s.thread.current = some i)
    (hi : s.writers[i]? = some w) : Serial calm (printed s i w) := by
  have hset := h.set hi { w with dropped := true, reading := false } s.output rfl rfl (fun _ => rfl)
  have hdropped : ∀ j v, (s.writers.set i { w with dropped := true, reading := false })[j]? = some v → j = i →
      v.dropped = true := by
    rintro j v hj rfl
    obtain ⟨hlt, _⟩ := List.getElem?_eq_some_iff.mp hi
    rw [List.getElem?_set_self hlt, Option.some.injEq] at hj
    exact hj ▸ rfl
  cases hthread : s.thread with
  | rejecting k =>
    obtain rfl : k = i := by simpa [hthread, Thread.current] using hcurrent
    have hmove := hset.move .closing (by simp [hthread, Thread.Over]) (by simp)
      (fun j v hj _ hholds => .inl (hdropped j v hj (by simpa [hthread, Thread.Holds] using hholds)))
    simpa only [connection.printed, Connection.set, hthread] using hmove
  | unsupported k =>
    obtain rfl : k + 1 = i := by simpa [hthread, Thread.current] using hcurrent
    have hmove := hset.move (.discarding k) (by simp [hthread, Thread.Over]) (by simp)
      (fun j v hj _ hholds => by
        simp only [hthread, Thread.Holds] at hholds ⊢
        exact hholds.symm.imp_left (hdropped j v hj))
    simpa only [connection.printed, Connection.set, hthread] using hmove
  | discarding k =>
    obtain rfl : k = i := by simpa [hthread, Thread.current] using hcurrent
    have hmove := hset.move .reading (by simp [hthread, Thread.Over]) (by simp)
      (fun j v hj _ hholds => .inl (hdropped j v hj (by simpa [hthread, Thread.Holds] using hholds)))
    simpa only [connection.printed, Connection.set, hthread] using hmove
  | reading | waiting | closing | closed => simp [hthread, Thread.current] at hcurrent

/-- A completion is announced once, by the request that the thread waits for if none has
been given up. -/
theorem Serial.notify (h : Serial calm s) {i : Nat} {w : Writer} (hi : s.writers[i]? = some w)
    (hholder : w.holder = .handler) (hdropped : w.dropped = true) (hsilent : w.notified = false) :
    Serial calm
      { s with
        writers := s.writers.set i { w with notified := true }
        notifications := s.notifications + 1 } where
  secure := h.secure
  dropped v hmem hsent := by
    obtain hmem | rfl := List.mem_or_eq_of_mem_set hmem
    · exact h.dropped v hmem hsent
    · exact hdropped
  mine j v hj hthread := by
    rw [List.getElem?_set] at hj
    grind [Serial.mine]
  answered j v hj hhandler := by
    rw [List.getElem?_set] at hj
    rw [List.length_set]
    grind [Serial.answered]
  pending hthread := by
    obtain ⟨last, hlast, hhandler, hcount⟩ := h.pending hthread
    obtain hanswered | ⟨_, hlength⟩ | ⟨_, hover⟩ := h.answered i w hi hholder
    · rw [hsilent] at hanswered
      cases hanswered
    · obtain rfl : i = s.writers.length - 1 := by omega
      rw [hi, Option.some.injEq] at hlast
      subst hlast
      obtain ⟨hlt, _⟩ := List.getElem?_eq_some_iff.mp hi
      refine ⟨{ w with notified := true }, by rw [List.length_set, List.getElem?_set_self hlt], hhandler, ?_⟩
      simp only [hcount, hsilent, Bool.toNat_false, Bool.toNat_true, Nat.zero_add]
    · rw [hthread] at hover
      simp [Thread.Over] at hover
  quiet hwaiting hover := by
    obtain hanswered | ⟨hthread, _⟩ | ⟨_, hover'⟩ := h.answered i w hi hholder
    · rw [hsilent] at hanswered
      cases hanswered
    · exact absurd hthread hwaiting
    · exact absurd hover' hover

theorem step_serial {s' : Connection} {a : Action} (h : Serial calm s) (hcalm : calm = true → a ≠ .give_up)
    (hstep : step s a = some s') : Serial calm s' := by
  cases (step_progress hstep).2 with
  | request thread free =>
    rw [if_pos h.secure]
    exact h.request thread _
  | reject thread free =>
    refine h.own thread (by simp [next_writer]) (fun j w hj => .inr ?_) (by simp)
    obtain ⟨hlt, _⟩ := List.getElem?_eq_some_iff.mp hj
    simp only [List.length_singleton, Nat.lt_one_iff] at hlt
    simp [Thread.Holds, hlt]
  | orphan thread free =>
    rw [List.append_assoc]
    refine h.own thread (by simp [next_writer]) (fun j w hj => ?_) (by simp)
    obtain _ | _ | j := j
    · exact .inl (Option.some.inj hj ▸ rfl)
    · exact .inr rfl
    · cases hj
  | unsupported thread free =>
    rw [List.append_assoc]
    refine h.own thread (by simp [next_writer]) (fun j w hj => .inr ?_) (by simp)
    obtain _ | _ | j := j
    · exact .inl rfl
    · exact .inr rfl
    · cases hj
  | close thread => exact h.close thread
  | break_off thread =>
    refine h.own thread (by simp [next_writer]) (fun j w hj => .inl ?_) (by simp)
    obtain rfl := List.mem_singleton.mp (List.mem_of_getElem? hj)
    rfl
  | receive thread sent => exact h.receive thread sent
  | give_up thread sent =>
    cases calm with
    | true => exact absurd rfl (hcalm rfl)
    | false => exact h.give_up thread
  | leave thread free => exact h.leave thread
  | write hi open_ turn holder => exact h.set hi _ _ rfl rfl id
  | printed current hi triggered => exact h.printed current hi
  | finish hi holder open_ triggered => exact h.set hi _ _ rfl rfl (fun _ => rfl)
  | notify hi secure holder dropped silent thread => exact h.notify hi holder dropped silent
  | abort hi secure holder dropped silent thread =>
    exact ⟨h.secure, h.dropped, h.mine, h.answered, h.pending, h.quiet⟩
  | release hi holder dropped notified => exact h.set hi _ _ rfl rfl id

end serial

section results

/-- A writer is dropped that has not been used. -/
def Action.orphans : Action → Bool
  | .reject orphan | .close orphan => orphan
  | .request _ | .unsupported _ | .receive | .give_up | .leave | .write _ _ | .printed | .finish _ | .notify _
  | .release _ => false

theorem step_in_order {s s' : Connection} {a : Action} (h : InOrder s.writers s.output)
    (horphans : a.orphans = true → ∀ w ∈ s.writers, w.dropped = true) (hstep : step s a = some s') :
    InOrder s'.writers s'.output := by
  have hnext : ∀ (holder : Holder) (reading : Bool), (next_writer s.writers holder reading).touched →
      ∀ v ∈ s.writers, v.dropped = true := fun holder reading htouched => by
    simp only [Writer.touched, next_writer, List.isEmpty_iff, Bool.false_eq_true, or_false] at htouched
    simp [htouched]
  cases (step_progress hstep).2 with
  | request thread free => exact h.push rfl (hnext _ _)
  | reject thread free => exact h.push rfl (hnext _ _)
  | orphan thread free =>
    refine (h.push rfl fun _ => horphans rfl).push rfl fun htouched => ?_
    simp [Writer.touched, next_writer] at htouched
  | unsupported thread free =>
    refine (h.push rfl (hnext _ _)).push rfl fun htouched => ?_
    simp [Writer.touched, next_writer] at htouched
  | break_off thread => exact h.push rfl fun _ => horphans rfl
  | write hi open_ turn holder => exact h.write hi open_ turn _
  | printed current hi triggered =>
    rw [(printed_spec ..).1, (printed_spec ..).2.1]
    exact h.set hi _ rfl rfl (fun _ => rfl) (fun _ => .inl triggered)
  | finish hi holder open_ triggered => exact h.set hi _ rfl rfl (fun _ => rfl) (fun _ => .inl triggered)
  | notify hi secure holder dropped silent thread => exact h.set hi _ rfl rfl id id
  | release hi holder dropped notified => exact h.set hi _ rfl rfl id id
  | close | receive | give_up | leave | abort => exact h

/-- The thread of a secure connection drops an unused writer only where no other is open. -/
theorem Serial.of_orphans {calm : Bool} {s s' : Connection} {a : Action} (h : Serial calm s)
    (hstep : step s a = some s') (horphans : a.orphans = true) : ∀ w ∈ s.writers, w.dropped = true := by
  cases (step_progress hstep).2 with
  | orphan thread free => exact h.all_dropped thread
  | break_off thread => exact h.all_dropped thread
  | _ => cases horphans

/-- What is on the wire is, at every moment, the responses in the order of their requests:
none begins before the one before it is complete. On a connection without TLS this takes
that no request is turned down after a writer was made for it. -/
theorem responses_in_order {secure : Bool} {actions : List Action} {s : Connection}
    (hrun : Run step (.new secure) actions s) (horphans : secure = true ∨ ∀ a ∈ actions, a.orphans = false) :
    s.output = s.writers.flatMap Writer.written ∧
      ∀ (i j : Nat) (v w : Writer), i < j → s.writers[i]? = some v → s.writers[j]? = some w → w.written ≠ [] →
        v.dropped = true := by
  have hinorder : InOrder s.writers s.output := by
    obtain rfl | hnone := horphans
    · have hinv := hrun.invariant (fun s => Serial false s ∧ InOrder s.writers s.output) ?_ ⟨.new false, .nil⟩
      · exact hinv.2
      · rintro s a s' ⟨hserial, h⟩ hstep
        exact ⟨step_serial hserial (by simp) hstep, step_in_order h (hserial.of_orphans hstep) hstep⟩
    · refine hrun.invariant_along (fun s => InOrder s.writers s.output) ?_
        (Along.of_forall (fun a hmem _ => hnone a hmem) _) .nil
      intro s a s' h ha hstep
      exact step_in_order h (fun horphans => absurd horphans (by simp [ha])) hstep
  refine ⟨hinorder.output, fun i j v w hij hi hj hwritten => hinorder.before hij hj (.inl ?_) hi⟩
  by_contra htriggered
  exact hwritten (hinorder.fresh w (List.mem_of_getElem? hj) (eq_false_of_ne_true htriggered))

theorem responses_in_order_turned_down :
    ∃ s, Run step (.new true)
        [.request false, .write 0 [0x32], .finish 0, .notify 0, .release 0, .receive, .reject true, .write 2 [0x34]] s ∧
      s.output = [0x32, 0x34] ∧
      (s.output = s.writers.flatMap Writer.written ∧
        ∀ (i j : Nat) (v w : Writer), i < j → s.writers[i]? = some v → s.writers[j]? = some w → w.written ≠ [] →
          v.dropped = true) := by
  obtain ⟨s, hrun, houtput⟩ := exists_run step
    (show ([.request false, .write 0 [0x32], .finish 0, .notify 0, .release 0, .receive, .reject true,
      .write 2 [0x34]].foldlM step (.new true)).any (fun s => s.output = [0x32, 0x34]) = true by decide)
  exact ⟨s, hrun, of_decide_eq_true houtput, responses_in_order hrun (.inl rfl)⟩

/-- The first request is still being answered when the second is turned down. -/
theorem orphan_overtakes :
    ∃ s, Run step (.new false) [.request false, .reject true, .write 2 [0x34], .write 0 [0x32]] s ∧
      s.output ≠ s.writers.flatMap Writer.written := by
  obtain ⟨s, hrun, houtput⟩ := exists_run step
    (show ([.request false, .reject true, .write 2 [0x34], .write 0 [0x32]].foldlM step (.new false)).any
      (fun s => s.output ≠ s.writers.flatMap Writer.written) = true by decide)
  exact ⟨s, hrun, of_decide_eq_true houtput⟩

/-- The thread waits for the writer of a request that it holds itself. -/
structure Stuck (i : Nat) (s : Connection) : Prop where
  thread : s.thread = .unsupported i
  length : s.writers.length = i + 2
  held : ∃ v, s.writers[i]? = some v ∧ v.holder = .thread ∧ v.dropped = false
  next : ∃ w, s.writers[i + 1]? = some w ∧ w.holder = .thread ∧ w.triggered = false ∧ w.written = []

/-- A handler's writer changes. -/
theorem Stuck.set {i j : Nat} {s : Connection} (h : Stuck i s) {old : Writer} (hj : s.writers[j]? = some old)
    (hholder : old.holder = .handler) (new : Writer) (output : Bytes) (notifications : Nat) :
    Stuck i { s with writers := s.writers.set j new, output, notifications } := by
  obtain ⟨v, hv, hmine, hopen⟩ := h.held
  obtain ⟨w, hw, hother, hnext⟩ := h.next
  have hi : j ≠ i := by
    rintro rfl
    grind
  have hi' : j ≠ i + 1 := by
    rintro rfl
    grind
  refine ⟨h.thread, by simp [h.length], ⟨v, ?_, hmine, hopen⟩, w, ?_, hother, hnext⟩
  · rw [List.getElem?_set_ne hi]
    exact hv
  · rw [List.getElem?_set_ne hi']
    exact hw

theorem step_stuck {i : Nat} {s s' : Connection} {a : Action} (h : Stuck i s) (hstep : step s a = some s') :
    Stuck i s' := by
  cases (step_progress hstep).2 with
  | request thread free | reject thread free | orphan thread free | unsupported thread free | close thread
  | break_off thread | receive thread sent | give_up thread sent | leave thread free =>
    rw [h.thread] at thread
    cases thread
  | @write j buf u hj open_ hturn holder =>
    refine h.set hj ?_ _ _ s.notifications
    obtain holder | current := holder
    · exact holder
    · -- the thread's own writer waits for one that is never dropped
      obtain rfl : i + 1 = j := by simpa [h.thread, Thread.current] using current
      obtain ⟨v, hv, _, hopen⟩ := h.held
      obtain ⟨w, hw, _, hnext, _⟩ := h.next
      rw [hj, Option.some.injEq] at hw
      subst hw
      simp [hnext, turn, hv, hopen] at hturn
  | @printed j u current hj triggered =>
    obtain rfl : i + 1 = j := by simpa [h.thread, Thread.current] using current
    obtain ⟨w, hw, _, hnext, _⟩ := h.next
    rw [hj, Option.some.injEq] at hw
    subst hw
    rw [hnext] at triggered
    cases triggered
  | finish hj holder open_ triggered => exact h.set hj holder _ s.output s.notifications
  | notify hj secure holder dropped silent thread => exact h.set hj holder _ s.output _
  | abort hj secure holder dropped silent thread =>
    rw [h.thread] at thread
    cases thread
  | release hj holder dropped notified => exact h.set hj holder _ s.output s.notifications

/-- A request whose version is above 1.1 takes its connection's thread for good: the thread
waits for its turn behind the writer of that same request, reads nothing more and never
sends the answer. -/
theorem unsupported_version_blocks {secure body : Bool} {before after : List Action} {s : Connection}
    (hrun : Run step (.new secure) (before ++ .unsupported body :: after) s) :
    ∃ i, s.thread = .unsupported i ∧ s.writers.length = i + 2 ∧ ∃ w, s.writers[i + 1]? = some w ∧ w.written = [] := by
  obtain ⟨mid, _, hrest⟩ := run_append.mp hrun
  obtain ⟨start, hstart, hafter⟩ := run_cons.mp hrest
  have hstuck : Stuck mid.writers.length start := by
    cases (step_progress hstart).2 with
    | unsupported thread free =>
      refine ⟨rfl, by simp, ⟨next_writer mid.writers .thread body, by simp, rfl, rfl⟩, ?_⟩
      exact ⟨{ next_writer mid.writers .thread false with triggered := false }, by simp, rfl, rfl, rfl⟩
  have hend := hafter.invariant (Stuck mid.writers.length) (fun _ _ _ h hstep => step_stuck h hstep) hstuck
  obtain ⟨w, hw, _, _, hwritten⟩ := hend.next
  exact ⟨_, hend.thread, hend.length, w, hw, hwritten⟩

/-- The first request is answered. -/
def answered : List Action :=
  [.request false, .write 0 [0x32], .finish 0, .notify 0, .receive]

theorem unsupported_version_blocks_answered :
    ∃ s, Run step (.new true) (answered ++ Action.unsupported false :: [.release 0]) s ∧
      ∃ i, s.thread = .unsupported i ∧ s.writers.length = i + 2 ∧
        ∃ w, s.writers[i + 1]? = some w ∧ w.written = [] := by
  obtain ⟨s, hrun, _⟩ := exists_run step
    (show ((answered ++ Action.unsupported false :: [.release 0]).foldlM step (.new true)).any (fun _ => true) = true
      by decide)
  exact ⟨s, hrun, unsupported_version_blocks hrun⟩

theorem step_closed {s s' : Connection} {a : Action} (h : s.thread = .closed) (hstep : step s a = some s') :
    s'.thread = .closed := by
  cases (step_progress hstep).2 with
  | request thread free | reject thread free | orphan thread free | unsupported thread free | close thread
  | break_off thread | receive thread sent | give_up thread sent =>
    rw [h] at thread
    cases thread
  | leave thread free => rfl
  | printed current hi triggered =>
    rw [h] at current
    cases current
  | write | finish | notify | abort | release => exact h

/-- The thread is closed exactly from its leaving on. -/
theorem closed_iff {secure : Bool} {actions : List Action} {s : Connection}
    (hrun : Run step (.new secure) actions s) : s.thread = .closed ↔ .leave ∈ actions := by
  induction actions using List.reverseRecOn generalizing s with
  | nil =>
    obtain rfl := run_nil.mp hrun
    simp [Connection.new]
  | append_singleton actions a ih =>
    obtain ⟨mid, hmid, hlast⟩ := run_append.mp hrun
    have hstep := run_singleton.mp hlast
    rw [List.mem_append, ← ih hmid, List.mem_singleton]
    constructor
    · intro hclosed
      by_contra hnot
      obtain ⟨hopen, hother⟩ := not_or.mp hnot
      cases (step_progress hstep).2 with
      | leave thread free => exact hother rfl
      | request => grind
      | printed current hi triggered =>
        cases hthread : mid.thread <;> simp_all [printed, Connection.set, Thread.current]
      | reject | orphan | unsupported | close | break_off | receive | give_up => cases hclosed
      | write | finish | notify | abort | release => exact hopen hclosed
    · rintro (hclosed | rfl)
      · exact step_closed hclosed hstep
      · cases (step_progress hstep).2 with
        | leave thread free => rfl

/-- The process is aborted exactly where a request is completed after its connection gave
it up and its thread left: the receiver is gone by then. -/
theorem aborts_iff_late {actions : List Action} {s : Connection} (hrun : Run step (.new true) actions s) :
    s.aborted = true ↔
      ∃ before i, actions = before ++ [.notify i] ∧ .give_up ∈ before ∧ .leave ∈ before := by
  cases actions using List.reverseRecOn with
  | nil =>
    obtain rfl := run_nil.mp hrun
    simp [Connection.new]
  | append_singleton actions a =>
    obtain ⟨mid, hmid, hlast⟩ := run_append.mp hrun
    have hstep := run_singleton.mp hlast
    obtain ⟨halive, hprogress⟩ := step_progress hstep
    constructor
    · intro haborted
      cases hprogress with
      | @abort i w hi secure holder dropped silent thread =>
        refine ⟨actions, i, rfl, ?_, (closed_iff hmid).mp thread⟩
        by_contra hcalm
        have hserial := hmid.invariant_along (Serial true) (P := fun _ a => a ≠ .give_up)
          (fun _ _ _ h ha hstep => step_serial h (fun _ => ha) hstep)
          (.of_forall (fun a hmem _ => ne_of_mem_of_not_mem hmem hcalm) _) (.new true)
        obtain hnotified | ⟨hthread, _⟩ | ⟨hfalse, _⟩ := hserial.answered i w hi holder
        · rw [silent] at hnotified
          cases hnotified
        · rw [thread] at hthread
          cases hthread
        · cases hfalse
      | printed current hi triggered =>
        rw [(printed_spec ..).2.2, halive] at haborted
        cases haborted
      | _ => simp_all
    · rintro ⟨before, i, hactions, _, hleave⟩
      obtain ⟨rfl, rfl⟩ : actions = before ∧ a = .notify i := by
        obtain ⟨hbefore, ha⟩ := List.append_inj' hactions rfl
        exact ⟨hbefore, by simpa using ha⟩
      cases hprogress with
      | notify hi secure holder dropped silent thread => exact absurd ((closed_iff hmid).mpr hleave) thread
      | abort hi secure holder dropped silent thread => rfl

/-- The answer comes after the thread has left. -/
def slow : List Action :=
  [.request false, .give_up, .leave, .write 0 [0x32], .finish 0, .notify 0]

theorem aborts_iff_late_slow :
    ∃ s, Run step (.new true) slow s ∧
      ∃ before i, slow = before ++ [.notify i] ∧ .give_up ∈ before ∧ .leave ∈ before := by
  obtain ⟨s, hrun, haborted⟩ := exists_run step
    (show (slow.foldlM step (.new true)).any (fun s => s.aborted) = true by decide)
  exact ⟨s, hrun, (aborts_iff_late hrun).mp haborted⟩

end results

end tiny_http.connection
