import YtWebsub.Base.Machine
import YtWebsub.Store.Compaction

open rust rust.utf8 rust.text rust.num rust.fs
open yt_websub.util
open paging

namespace yt_websub.store.lifecycle

/-- A running store and one client polling it, without crashes or I/O errors. -/
structure Session where
  fs : FileSystem
  process : Store
  /-- Every event written so far, under the number `append` returned for it. -/
  history : List Event
  /-- The client's cursor, and everything it has been sent. -/
  cursor : U64
  delivered : List Event
  /-- Events that a compaction dropped for their age, whatever had been acknowledged. -/
  retired : List Event

/-- A store opened in an empty directory. -/
def Session.init : Session where
  fs := (Store.open .empty).1
  process := (Store.open .empty).2
  history := []
  cursor := 0
  delivered := []
  retired := []

inductive Action where
  | append (c : Call)
  | poll (max : Nat)
  | set_ack (through : U64)
  | compact
  | reopen

def step (s : Session) : Action → Option Session
  | .append c =>
    match s.process.call s.fs c none with
    | (fs, store, .ok (some seq)) =>
      some { s with fs, process := store, history := s.history ++ [{ s.process.event c with seq }] }
    | (fs, store, .ok none) => some { s with fs, process := store }
    | _ => none
  | .poll max =>
    match s.process.events_after s.fs s.cursor max with
    | none => none
    | some events =>
      some { s with cursor := advance Event.seq s.cursor events, delivered := s.delivered ++ events }
  | .set_ack through =>
    let (fs, store) := s.process.set_ack s.fs through none
    some { s with fs, process := store }
  | .compact =>
    match s.process.maybe_compact s.fs none with
    | (fs, store, true) =>
      let old (e : Event) : Bool :=
        e ∉ logged fs ∧ e.seq ≤ saturating_sub s.process.max_seq MAX_RETAINED_EVENTS
      some { s with fs, process := store, retired := s.retired ++ (logged s.fs).filter old }
    | _ => none
  | .reopen =>
    let (fs, store) := Store.open s.fs
    some { s with fs, process := store }

/-- The log and the window are both ends of one history numbered in order, and the
counter follows its last event. -/
structure Ordered (s : Session) : Prop where
  handle : s.fs.entries events_path = some s.process.log
  file : logBytes s.fs = render (logged s.fs)
  kept : logged s.fs <:+ s.history
  window : s.process.recent <:+ s.history
  keys : s.process.seen ⊆ (s.process.recent.map Event.key).toFinset
  increasing : Increasing Event.seq s.history
  positive : ∀ e ∈ s.history, 0 < e.seq.val
  counter : s.process.next_seq.val = (s.history.getLast?.map fun e => e.seq.val).getD 0 + 1

/-- A restart finds an event left in the log, unless none was ever written. -/
def ReopensKeptLog (s : Session) : Action → Prop
  | .reopen => s.history = [] ∨ logged s.fs ≠ []
  | _ => True

theorem Ordered.init : Ordered .init where
  handle := rfl
  file := rfl
  kept := List.suffix_rfl
  window := List.suffix_rfl
  keys := by decide
  increasing := List.Pairwise.nil
  positive := by simp [Session.init]
  counter := rfl

theorem Ordered.lt_counter {s : Session} (h : Ordered s) {e : Event} (he : e ∈ s.history) :
    e.seq < s.process.next_seq := by
  have hle := h.increasing.le_advance 0 he
  have hcounter := h.counter
  rw [Fin.le_def] at hle
  rw [Fin.lt_def, hcounter]
  unfold advance at hle
  cases hlast : s.history.getLast? with
  | none => rw [List.getLast?_eq_none_iff.mp hlast] at he; cases he
  | some last =>
    rw [hlast] at hle
    exact Nat.lt_succ_of_le hle

/-- The counter that a restart computes from the log. -/
theorem foldl_bump_increasing {es : List Event} (h : Increasing Event.seq es)
    (hpositive : ∀ e ∈ es, 0 < e.seq.val) (hroom : ∀ e ∈ es, e.seq.val + 1 < 2 ^ 64) :
    (es.foldl bump 1).val = (es.getLast?.map fun e => e.seq.val).getD 0 + 1 := by
  induction es using List.reverseRecOn with
  | nil => rfl
  | append_singleton es e ih =>
    have hlater : ∀ a ∈ es, a.seq < e.seq := fun a ha =>
      (List.pairwise_append.mp h).2.2 a ha e (List.mem_singleton_self e)
    have hes := ih (List.pairwise_append.mp h).1 (fun a ha => hpositive a (List.mem_append_left _ ha))
      (fun a ha => hroom a (List.mem_append_left _ ha))
    have hle : es.foldl bump 1 ≤ e.seq := by
      rw [Fin.le_def, hes]
      cases hlast : es.getLast? with
      | none => exact hpositive e (by simp)
      | some last => exact hlater last (List.mem_of_getLast? hlast)
    have hlimit := hroom e (by simp)
    rw [List.foldl_append, List.foldl_cons, List.foldl_nil, bump, if_pos hle, saturating_add_val,
      List.getLast?_concat, Option.map_some, Option.getD_some]
    omega

/-- A non-empty end of the history ends where the history does. -/
theorem getLast?_of_suffix {α : Type} {l l' : List α} (h : l' <:+ l) (hne : l' ≠ []) :
    l'.getLast? = l.getLast? := by
  obtain ⟨front, rfl⟩ := h
  rw [List.getLast?_append_of_ne_nil _ hne]

theorem suffix_append_right {α : Type} {l l' : List α} (h : l' <:+ l) (tail : List α) :
    l' ++ tail <:+ l ++ tail := by
  obtain ⟨front, rfl⟩ := h
  exact ⟨front, (List.append_assoc ..).symm⟩

theorem push_recent_suffix (recent : List Event) (e : Event) : push_recent recent e <:+ recent ++ [e] := by
  simp only [push_recent]
  split
  · exact List.tail_suffix _
  · exact List.suffix_rfl

theorem Ordered.intact {s : Session} (h : Ordered s) : Intact s.fs s.process :=
  ⟨h.handle, h.file⟩

/-- An append is suppressed and changes nothing, or adds its event to the history and to
the log. -/
theorem step_append {s s' : Session} {c : Call} (hintact : Intact s.fs s.process)
    (hstep : step s (.append c) = some s') :
    s' = s ∨
    (c.key ∉ s.process.seen ∧ ∃ fs next_seq, checked_add s.process.next_seq 1 = some next_seq ∧
      s' =
        { s with
          fs
          process := s.process.recorded (s.process.event c) next_seq
          history := s.history ++ [s.process.event c] } ∧
      Intact fs (s.process.recorded (s.process.event c) next_seq) ∧ logged fs = logged s.fs ++ [s.process.event c] ∧
      load_ack fs = load_ack s.fs) := by
  simp only [step] at hstep
  split at hstep
  · rename_i hcall
    cases hstep
    obtain ⟨_, _, _, hnone⟩ | ⟨hnew, next_seq, hadd, rfl, hseq, hkept⟩ := hintact.call hcall (by simp)
    · cases hnone
    · cases hseq
      exact Or.inr ⟨hnew, _, next_seq, hadd, rfl, hkept⟩
  · rename_i hcall
    cases hstep
    obtain ⟨_, rfl, rfl, _⟩ | ⟨_, _, _, _, hseq, _⟩ := hintact.call hcall (by simp)
    · exact Or.inl rfl
    · cases hseq
  · cases hstep

/-- An event that was appended ends the history, the log and the window. -/
theorem Ordered.append {s : Session} (h : Ordered s) {c : Call} {next_seq : U64}
    (hadd : checked_add s.process.next_seq 1 = some next_seq) {fs : FileSystem}
    (hintact : Intact fs (s.process.recorded (s.process.event c) next_seq))
    (hlogged : logged fs = logged s.fs ++ [s.process.event c]) :
    Ordered
      { s with
        fs
        process := s.process.recorded (s.process.event c) next_seq
        history := s.history ++ [s.process.event c] } := by
  refine ⟨hintact.handle, hintact.file, ?_, ?_, push_seen_subset h.keys _, ?_, ?_, ?_⟩
  · rw [hlogged]
    exact suffix_append_right h.kept _
  · exact (push_recent_suffix _ _).trans (suffix_append_right h.window _)
  · exact h.increasing.append_singleton fun e he => h.lt_counter he
  · intro e he
    rcases List.mem_append.mp he with he | he
    · exact h.positive e he
    · rw [List.mem_singleton.mp he]
      change 0 < s.process.next_seq.val
      rw [h.counter]
      omega
  · rw [List.getLast?_concat]
    exact checked_add_eq_some.mp hadd

/-- Acknowledging touches neither the log nor the window. -/
theorem Ordered.set_ack {s : Session} (h : Ordered s) (through : U64) :
    Ordered
      { s with
        fs := (s.process.set_ack s.fs through none).1
        process := (s.process.set_ack s.fs through none).2 } := by
  obtain ⟨fs, ack_through, hset, hintact, hlogged, _⟩ := h.intact.set_ack through
  rw [hset]
  refine ⟨hintact.handle, hintact.file, ?_, h.window, h.keys, h.increasing, h.positive, h.counter⟩
  rw [hlogged]
  exact h.kept

theorem Ordered.compact {s : Session} (h : Ordered s) {fs : FileSystem} {log : Nat}
    (hhandle : fs.entries events_path = some log) (hfile : logBytes fs = render (logged fs))
    (hkept : logged fs <:+ logged s.fs) (retired : List Event) :
    Ordered { s with fs, process := { s.process with log }, retired } :=
  ⟨hhandle, hfile, hkept.trans h.kept, h.window, h.keys, h.increasing, h.positive, h.counter⟩

/-- A compaction keeps the log or drops its events up to the bound. -/
theorem Ordered.compact_spec {s : Session} (h : Ordered s) :
    ∃ fs log, step s .compact =
        some { s with
          fs
          process := { s.process with log }
          retired := s.retired ++ (logged s.fs).filter fun e =>
            e ∉ logged fs ∧ e.seq ≤ saturating_sub s.process.max_seq MAX_RETAINED_EVENTS } ∧
      fs.entries events_path = some log ∧ fs.read ack_path = s.fs.read ack_path ∧
      logBytes fs = render (logged fs) ∧
      ((logged fs = logged s.fs ∧
          ((logBytes s.fs).length < COMPACT_BYTES ∨ ∀ e ∈ logged s.fs, s.process.keep_above < e.seq)) ∨
        (COMPACT_BYTES ≤ (logBytes s.fs).length ∧
          logged fs = (logged s.fs).filter fun e => s.process.keep_above < e.seq)) := by
  obtain ⟨fs, log, hcompact, hintact, hack, hcases⟩ := h.intact.compact
  exact ⟨fs, log, by simp only [step, hcompact], hintact.handle, hack, hintact.file, hcases⟩

/-- A restart computes the counter it had, as long as the last event is still there. -/
theorem Ordered.reopen {s : Session} (h : Ordered s) (hlast : s.history = [] ∨ logged s.fs ≠ []) :
    Ordered { s with fs := (Store.open s.fs).1, process := (Store.open s.fs).2 } := by
  obtain ⟨hintact, hlogged⟩ := h.intact.reopen
  obtain ⟨hcounter, hwindow, hkeys⟩ := open_spec s.fs
  refine ⟨hintact.handle, hintact.file, ?_, ?_, hkeys.subset, h.increasing, h.positive, ?_⟩
  · rw [hlogged]
    exact h.kept
  · rw [hwindow]
    exact (List.drop_suffix _ _).trans h.kept
  · have hmem : ∀ e ∈ logged s.fs, e ∈ s.history := fun e he => h.kept.subset he
    simp only [hcounter]
    rw [foldl_bump_increasing (h.increasing.of_suffix h.kept) (fun e he => h.positive e (hmem e he)) ?_]
    · rcases hlast with hnone | hne
      · have hempty : logged s.fs = [] := List.suffix_nil.mp (hnone ▸ h.kept)
        rw [hempty, hnone]
      · rw [getLast?_of_suffix h.kept hne]
    · intro e he
      have hlt := h.lt_counter (hmem e he)
      rw [Fin.lt_def] at hlt
      omega

/-- What a poll reads is an end of the history. -/
theorem Ordered.source_suffix {s : Session} (h : Ordered s) (after : U64) :
    s.process.source s.fs after <:+ s.history := by
  unfold Store.source
  split
  · exact h.window
  · exact h.kept

/-- What one step does to an ordered session, the numbering condition apart. -/
theorem step_ordered {s s' : Session} {a : Action} (h : Ordered s) (hkept : ReopensKeptLog s a)
    (hstep : step s a = some s') : Ordered s' := by
  cases a with
  | append c =>
    obtain rfl | ⟨_, fs, next_seq, hadd, rfl, hintact, hlogged, _⟩ := step_append h.intact hstep
    · exact h
    · exact h.append hadd hintact hlogged
  | poll max =>
    simp only [step] at hstep
    split at hstep
    · cases hstep
    · simp only [Option.some.injEq] at hstep
      subst hstep
      exact ⟨h.handle, h.file, h.kept, h.window, h.keys, h.increasing, h.positive, h.counter⟩
  | set_ack through =>
    simp only [step, Option.some.injEq] at hstep
    subst hstep
    exact h.set_ack through
  | compact =>
    obtain ⟨fs, log, hcompact, hhandle, _, hfile, hcases⟩ := h.compact_spec
    rw [hcompact, Option.some.injEq] at hstep
    subst hstep
    refine h.compact hhandle hfile ?_ _
    rcases hcases with ⟨hsame, _⟩ | ⟨_, hfiltered⟩
    · rw [hsame]
    · rw [hfiltered]
      exact (h.increasing.of_suffix h.kept).filter_suffix _
  | reopen =>
    simp only [step, Option.some.injEq] at hstep
    subst hstep
    exact h.reopen hkept

end yt_websub.store.lifecycle
