import YtWebsub.Base.Machine
import YtWebsub.Store.Compaction

open rust rust.utf8 rust.text rust.num rust.fs
open yt_websub.util

namespace yt_websub.store.arithmetic

/-- A store on whatever was in its directory, with the numbers that it has seen. -/
structure Session where
  fs : FileSystem
  process : Store
  /-- The numbers of the log as it was opened. -/
  parsed : List U64
  /-- The numbers that `append` has returned since. -/
  returned : List U64

def Session.opened (fs : FileSystem) : Session where
  fs := (Store.open fs).1
  process := (Store.open fs).2
  parsed := (logged fs).map Event.seq
  returned := []

inductive Action where
  | append (c : Call) (fault : Option AppendFault)
  | max_seq
  | set_ack (through : U64) (fault : Option AtomicFault)
  | compact (fault : Option CompactFault)
  | events_after (after : U64) (max : Nat)

def step (s : Session) : Action → Option Session
  | .append c fault =>
    match s.process.call s.fs c fault with
    | (fs, store, .ok (some seq)) => some { s with fs, process := store, returned := s.returned ++ [seq] }
    | (fs, store, .ok none) => some { s with fs, process := store }
    | (fs, store, .err) => some { s with fs, process := store }
    | (_, _, .panic) => none
  | .max_seq => some s
  | .set_ack through fault =>
    let (fs, store) := s.process.set_ack s.fs through fault
    some { s with fs, process := store }
  | .compact fault =>
    let (fs, store, _) := s.process.maybe_compact s.fs fault
    some { s with fs, process := store }
  | .events_after after max => (s.process.events_after s.fs after max).map fun _ => s

/-- A plain addition of the call overflows: `next_seq += 1`, `after + 1`, or `dropped += 1`
on a log whose length is a `u64`. All other arithmetic saturates. -/
def Overflows (s : Session) : Action → Prop
  | .append c fault => (s.process.call s.fs c fault).2.2 = .panic
  | .events_after after max => s.process.events_after s.fs after max = none
  | .compact _ =>
    (logBytes s.fs).length < 2 ^ 64 ∧
      2 ^ 64 ≤ (copy_lines s.process.keep_above (readLines (logBytes s.fs)) [] 0).2
  | .max_seq => False
  | .set_ack _ _ => False

/-- Every number returned is later than all that were parsed or returned before. -/
structure Ascending (s : Session) : Prop where
  parsed : ∀ n ∈ s.parsed, ∀ m ∈ s.returned, n < m
  returned : s.returned.Pairwise (· < ·)

/-- What is expected of a call. -/
structure Sequenced (s : Session) (a : Action) : Prop where
  no_overflow : ¬ Overflows s a
  ascending : ∀ s', step s a = some s' → Ascending s'
  max_seq : ∀ s', step s a = some s' → s.process.max_seq ≤ s'.process.max_seq

/-- No poll comes with the last cursor, and no event is written after a number has been
seen whose successor is the last one. -/
def BelowLimit (s : Session) : Action → Prop
  | .append c fault => c.key ∈ s.process.seen ∨ fault ≠ none ∨ ∀ n ∈ s.parsed ++ s.returned, n.val + 2 < 2 ^ 64
  | .events_after after _ => after ≠ U64.MAX
  | _ => True

/-- The counter follows the highest number seen, or is pinned at the limit. -/
structure Counting (s : Session) : Prop where
  later : ∀ n ∈ s.parsed ++ s.returned, n < s.process.next_seq ∨ s.process.next_seq = U64.MAX
  reached : s.process.next_seq.val = 1 ∨ ∃ n ∈ s.parsed ++ s.returned, s.process.next_seq.val ≤ n.val + 1
  ascending : Ascending s

/-- The counter of a loaded log is one past an event of it, unless it is still 1. -/
theorem foldl_bump_reached (es : List Event) (next_seq : U64) :
    es.foldl bump next_seq = next_seq ∨ ∃ e ∈ es, (es.foldl bump next_seq).val ≤ e.seq.val + 1 := by
  induction es using List.reverseRecOn with
  | nil => exact Or.inl rfl
  | append_singleton es e ih =>
    rw [List.foldl_append, List.foldl_cons, List.foldl_nil, bump]
    split
    · refine Or.inr ⟨e, by simp, ?_⟩
      rw [saturating_add_val]
      omega
    · refine ih.imp_right ?_
      rintro ⟨e', he', hle⟩
      exact ⟨e', List.mem_append_left _ he', hle⟩

theorem Counting.opened (fs : FileSystem) : Counting (.opened fs) := by
  have hcounter := (open_spec fs).1
  refine ⟨?_, ?_, ⟨fun n _ m hm => absurd hm List.not_mem_nil, List.Pairwise.nil⟩⟩
  · intro n hn
    rw [Session.opened, List.append_nil] at hn
    obtain ⟨e, he, rfl⟩ := List.mem_map.mp hn
    rw [Session.opened, hcounter]
    exact lt_or_eq_max_foldl_bump he 1
  · rw [Session.opened, hcounter, List.append_nil]
    refine (foldl_bump_reached (logged fs) 1).imp (fun hone => congrArg Fin.val hone) ?_
    rintro ⟨e, he, hle⟩
    exact ⟨e.seq, List.mem_map_of_mem he, hle⟩

/-- The counter stands at the limit exactly when a number just below it has been seen. -/
theorem Counting.at_limit {s : Session} (h : Counting s) :
    s.process.next_seq = U64.MAX ↔ ¬ ∀ n ∈ s.parsed ++ s.returned, n.val + 2 < 2 ^ 64 := by
  have hval : s.process.next_seq = U64.MAX ↔ s.process.next_seq.val = 2 ^ 64 - 1 := Fin.ext_iff
  constructor
  · intro hmax hall
    rw [hval] at hmax
    obtain hone | ⟨n, hn, hle⟩ := h.reached
    · omega
    · have hlow := hall n hn
      omega
  · intro hnot
    obtain ⟨n, hn, hhigh⟩ := not_forall₂.mp hnot
    obtain hlt | hmax := h.later n hn
    · rw [Fin.lt_def] at hlt
      rw [hval]
      have hbound := s.process.next_seq.isLt
      omega
    · exact hmax

/-- A counter that does not move keeps the invariant. -/
theorem Counting.unmoved {s s' : Session} (h : Counting s) (hnext : s'.process.next_seq = s.process.next_seq)
    (hparsed : s'.parsed = s.parsed) (hreturned : s'.returned = s.returned) : Counting s' := by
  obtain ⟨hlater, hreached, hascending⟩ := h
  refine ⟨?_, ?_, ?_, ?_⟩
  · rw [hparsed, hreturned, hnext]
    exact hlater
  · rw [hparsed, hreturned, hnext]
    exact hreached
  · rw [hparsed, hreturned]
    exact hascending.parsed
  · rw [hreturned]
    exact hascending.returned

/-- A number that is assigned lies above all that were seen. -/
theorem Counting.assign {s s' : Session} (h : Counting s) {next_seq : U64}
    (hadd : checked_add s.process.next_seq 1 = some next_seq) (hnext : s'.process.next_seq = next_seq)
    (hparsed : s'.parsed = s.parsed) (hreturned : s'.returned = s.returned ++ [s.process.next_seq]) :
    Counting s' := by
  have hsucc : next_seq.val = s.process.next_seq.val + 1 := checked_add_eq_some.mp hadd
  have hroom : s.process.next_seq ≠ U64.MAX := by
    intro hmax
    rw [hmax] at hsucc
    have hbound := next_seq.isLt
    simp only [U64.MAX] at hsucc
    omega
  have hlater : ∀ n ∈ s.parsed ++ s.returned, n < s.process.next_seq := fun n hn =>
    (h.later n hn).resolve_right hroom
  refine ⟨?_, ?_, ?_, ?_⟩
  · intro n hn
    refine Or.inl ?_
    rw [hparsed, hreturned, ← List.append_assoc] at hn
    rw [hnext, Fin.lt_def, hsucc]
    obtain hn | hn := List.mem_append.mp hn
    · have hlt := hlater n hn
      rw [Fin.lt_def] at hlt
      omega
    · rw [List.mem_singleton.mp hn]
      omega
  · refine Or.inr ⟨s.process.next_seq, ?_, ?_⟩
    · rw [hreturned]
      simp
    · rw [hnext, hsucc]
  · intro n hn m hm
    rw [hparsed] at hn
    rw [hreturned] at hm
    obtain hm | hm := List.mem_append.mp hm
    · exact h.ascending.parsed n hn m hm
    · rw [List.mem_singleton.mp hm]
      exact hlater n (List.mem_append_left _ hn)
  · rw [hreturned, List.pairwise_append]
    refine ⟨h.ascending.returned, List.pairwise_singleton _ _, fun n hn m hm => ?_⟩
    rw [List.mem_singleton.mp hm]
    exact hlater n (List.mem_append_right _ hn)

/-- Everything a call can do to the counter: leave it alone, or assign its value and move on. -/
theorem step_counter {s s' : Session} {a : Action} (hstep : step s a = some s') :
    (s'.process.next_seq = s.process.next_seq ∧ s'.parsed = s.parsed ∧ s'.returned = s.returned) ∨
      ∃ next_seq, checked_add s.process.next_seq 1 = some next_seq ∧ s'.process.next_seq = next_seq ∧
        s'.parsed = s.parsed ∧ s'.returned = s.returned ++ [s.process.next_seq] := by
  cases a with
  | append c fault =>
    simp only [step] at hstep
    obtain ⟨_, hcall⟩ | ⟨_, _, torn, _, hcall⟩ | ⟨_, _, _, hcall⟩ | ⟨_, _, next_seq, hadd, hcall⟩ :=
      call_cases s.fs s.process c fault
    · rw [hcall, Option.some.injEq] at hstep
      exact Or.inl (hstep ▸ ⟨rfl, rfl, rfl⟩)
    · rw [hcall, Option.some.injEq] at hstep
      exact Or.inl (hstep ▸ ⟨rfl, rfl, rfl⟩)
    · rw [hcall] at hstep
      cases hstep
    · rw [hcall, Option.some.injEq] at hstep
      exact Or.inr ⟨next_seq, hadd, hstep ▸ ⟨rfl, rfl, rfl⟩⟩
  | max_seq =>
    rw [step, Option.some.injEq] at hstep
    exact Or.inl (hstep ▸ ⟨rfl, rfl, rfl⟩)
  | set_ack through fault =>
    obtain ⟨fs, ack_through, hset, _⟩ := set_ack_unmoved s.fs s.process through fault
    simp only [step, hset, Option.some.injEq] at hstep
    exact Or.inl (hstep ▸ ⟨rfl, rfl, rfl⟩)
  | compact fault =>
    simp only [step, Option.some.injEq] at hstep
    subst hstep
    refine Or.inl ⟨?_, rfl, rfl⟩
    obtain ⟨_, hstore, _⟩ | ⟨_, fs, tmp, _, _, _, _, ⟨_, hresult⟩ | ⟨_, hresult⟩⟩ :=
      maybe_compact_cases s.fs s.process fault
    · rw [hstore]
    · rw [hresult]
    · rw [hresult]
  | events_after after max =>
    obtain ⟨_, _, rfl⟩ := Option.map_eq_some_iff.mp hstep
    exact Or.inl ⟨rfl, rfl, rfl⟩

theorem step_counting {s s' : Session} {a : Action} (h : Counting s) (hstep : step s a = some s') : Counting s' := by
  obtain ⟨hnext, hparsed, hreturned⟩ | ⟨next_seq, hadd, hnext, hparsed, hreturned⟩ := step_counter hstep
  · exact h.unmoved hnext hparsed hreturned
  · exact h.assign hadd hnext hparsed hreturned

theorem step_max_seq {s s' : Session} {a : Action} (hstep : step s a = some s') :
    s.process.max_seq ≤ s'.process.max_seq := by
  rw [Fin.le_def, Store.max_seq, Store.max_seq, saturating_sub_val, saturating_sub_val]
  obtain ⟨hnext, _⟩ | ⟨next_seq, hadd, hnext, _⟩ := step_counter hstep
  · rw [hnext]
  · rw [hnext, checked_add_eq_some.mp hadd]
    omega

theorem length_splitInclusive_le {α : Type} [DecidableEq α] (sep : α) (xs : List α) :
    (splitInclusive sep xs).length ≤ xs.length := by
  induction xs with
  | nil => exact le_rfl
  | cons x xs ih =>
    rw [splitInclusive]
    split
    · exact Nat.succ_le_succ ih
    · split
      · exact Nat.succ_le_succ (Nat.zero_le _)
      · rename_i hsplit
        rw [hsplit] at ih
        exact ih.trans (Nat.le_succ _)

theorem length_parsedRows_le (lines : List (Option Text)) : (parsedRows lines).length ≤ lines.length := by
  induction lines with
  | nil => exact le_rfl
  | cons line lines ih =>
    cases line with
    | none => exact Nat.zero_le _
    | some line =>
      rw [parsedRows]
      split
      · exact Nat.succ_le_succ ih
      · exact ih.trans (Nat.le_succ _)

/-- A compaction counts no more lines than the log has bytes. -/
theorem dropped_le (keep_above : U64) (bytes : Bytes) :
    (copy_lines keep_above (readLines bytes) [] 0).2 ≤ bytes.length := by
  rw [copy_lines_eq, Nat.zero_add]
  calc ((parsedRows (readLines bytes)).filter _).length
      ≤ (parsedRows (readLines bytes)).length := List.length_filter_le _ _
    _ ≤ (readLines bytes).length := length_parsedRows_le _
    _ = (splitInclusive 10 bytes).length := List.length_map _
    _ ≤ bytes.length := length_splitInclusive_le 10 bytes

/-- An addition overflows exactly where the call is outside the limit. -/
theorem Counting.overflows_iff {s : Session} (h : Counting s) (a : Action) : Overflows s a ↔ ¬ BelowLimit s a := by
  cases a with
  | append c fault =>
    have hroom : checked_add s.process.next_seq 1 = none ↔ s.process.next_seq = U64.MAX := by
      have hbound := s.process.next_seq.isLt
      rw [checked_add, Fin.ext_iff]
      simp only [U64.MAX, dite_eq_right_iff, reduceCtorEq, imp_false]
      omega
    rw [BelowLimit, ← or_assoc, not_or, ← h.at_limit, not_or, not_ne_iff, ← hroom, Overflows]
    obtain ⟨hseen, hcall⟩ | ⟨_, hfault, torn, _, hcall⟩ | ⟨hnew, hfault, hadd, hcall⟩ | ⟨_, _, _, hadd, hcall⟩ :=
      call_cases s.fs s.process c fault
    · rw [hcall]
      exact iff_of_false (by simp) fun hnot => hnot.1.1 hseen
    · rw [hcall]
      exact iff_of_false (by simp) fun hnot => by simp [hnot.1.2] at hfault
    · rw [hcall]
      exact iff_of_true rfl ⟨⟨hnew, hfault⟩, hadd⟩
    · rw [hcall, hadd]
      simp
  | events_after after max =>
    have hnone : s.process.events_after s.fs after max = none ↔ checked_add after 1 = none := by
      unfold Store.events_after
      cases checked_add after 1 with
      | none => simp
      | some next =>
        simp only [reduceCtorEq, iff_false]
        split <;> simp
    have hbound := after.isLt
    rw [Overflows, BelowLimit, hnone, not_ne_iff, checked_add, Fin.ext_iff]
    simp only [U64.MAX, dite_eq_right_iff, reduceCtorEq, imp_false]
    omega
  | compact fault =>
    have hle := dropped_le s.process.keep_above (logBytes s.fs)
    simp only [Overflows, BelowLimit, not_true_eq_false, iff_false]
    omega
  | max_seq => exact iff_of_false id (not_not.mpr trivial)
  | set_ack through fault => exact iff_of_false id (not_not.mpr trivial)

theorem Counting.sequenced_iff {s : Session} (h : Counting s) (a : Action) : Sequenced s a ↔ BelowLimit s a := by
  constructor
  · intro hsequenced
    by_contra hnot
    exact hsequenced.no_overflow ((h.overflows_iff a).mpr hnot)
  · intro hbelow
    refine ⟨fun hoverflows => (h.overflows_iff a).mp hoverflows hbelow, ?_, ?_⟩
    · intro s' hstep
      exact (step_counting h hstep).ascending
    · intro s' hstep
      exact step_max_seq hstep

/-- Whatever the log held when it was opened: no addition overflows, the numbers grow and
`max_seq` does not fall exactly in the runs that stay below the limit. -/
theorem sequence_arithmetic_iff (fs : FileSystem) (actions : List Action) :
    machine.Along step Sequenced (.opened fs) actions ↔ machine.Along step BelowLimit (.opened fs) actions :=
  machine.along_congr Counting (fun _ _ _ => step_counting) (fun _ a h => h.sequenced_iff a) (.opened fs)

/-- An event under the highest number. -/
def forged : Event :=
  { seq := U64.MAX, received_at := 1, kind := "new".toList, channel_id := [], video_id := [], ts := [], title := [] }

/-- A poll from the last cursor overflows, and so does an append to a log with the highest number. -/
theorem arithmetic_overflows :
    ¬ machine.Along step Sequenced (.opened .empty) [.events_after U64.MAX 500] ∧
      ∃ fs, logBytes fs = encode (format_line forged) ∧
        ¬ machine.Along step Sequenced (.opened fs) [.append .sample none] := by
  refine ⟨fun halong => ((Counting.opened .empty).sequenced_iff _).mp halong.1 rfl, ?_⟩
  have hhandle : (FileSystem.empty.openAppend events_path).1.entries events_path =
      some (FileSystem.empty.openAppend events_path).2 := FileSystem.openAppend_entries_self ..
  refine ⟨(FileSystem.empty.openAppend events_path).1.append (FileSystem.empty.openAppend events_path).2
    (encode (format_line forged)), logBytes_append hhandle _, fun halong => ?_⟩
  generalize hfs : FileSystem.append _ _ _ = fs at halong
  have hlogged : logged fs = [forged] := by
    rw [logged_eq, ← hfs, logBytes_append hhandle]
    exact eventsIn_render [forged]
  obtain ⟨_, hrecent, hseen⟩ := open_spec fs
  rw [hrecent, hlogged] at hseen
  obtain hmem | hfault | hbelow := ((Counting.opened fs).sequenced_iff _).mp halong.1
  · rw [Session.opened, hseen] at hmem
    revert hmem
    decide
  · exact hfault rfl
  · have hlow := hbelow U64.MAX (List.mem_append_left _ (by
      rw [Session.opened, hlogged]
      exact List.mem_singleton_self _))
    simp only [U64.MAX] at hlow
    omega

end yt_websub.store.arithmetic
