import YtWebsub.Base.Machine
import YtWebsub.Store.Operations

open rust rust.utf8 rust.text rust.num rust.fs
open yt_websub.util

namespace yt_websub.store.durability

/-- The storage directory, the process using it if one is running, and the events
for which `append` returned `Ok(Some(seq))` so far. -/
structure Session where
  fs : FileSystem
  process : Option Store
  acknowledged : List Event

def Session.init : Session where
  fs := .empty
  process := none
  acknowledged := []

inductive Action where
  /-- Start, or drop the store and open the directory again. -/
  | open
  | append (c : Call)
  /-- The process dies inside an append, after this many bytes of the line. -/
  | crash (c : Call) (written : Nat)

def step (s : Session) : Action → Option Session
  | .open =>
    let (fs, store) := Store.open s.fs
    some { s with fs, process := some store }
  | .append c =>
    match s.process with
    | none => none
    | some store =>
      match store.call s.fs c none with
      | (fs, store', .ok (some _)) =>
        some { fs, process := some store', acknowledged := s.acknowledged ++ [store.event c] }
      | (fs, store', .ok none) => some { s with fs, process := some store' }
      | _ => none
  | .crash c written =>
    match s.process with
    | none => none
    | some store => some { s with fs := (store.call s.fs c (some (.write written))).1, process := none }

/-- `events.log` is empty or ends in a newline. -/
def AtLineStart (fs : FileSystem) : Prop :=
  logBytes fs = [] ∨ (logBytes fs).getLast? = some 10

/-- Bytes are only ever added to a log that ends in a complete line. -/
def AddsToCompleteLines (s : Session) : Action → Prop
  | .open => True
  | .append c => ∀ store, s.process = some store → (store.event c).key ∉ store.seen → AtLineStart s.fs
  | .crash c written =>
    ∀ store, s.process = some store → (store.event c).key ∉ store.seen → 0 < written → AtLineStart s.fs

/-- Every acknowledged event is returned by every long enough poll from an earlier
cursor, no other event is ever returned under its number, and the numbers still to
be assigned are higher. -/
def Durable (s : Session) : Prop :=
  ∀ store, s.process = some store → ∀ e ∈ s.acknowledged,
    (∃ bound, ∀ max, bound ≤ max → ∀ after, after < e.seq →
      ∃ events, store.events_after s.fs after max = some events ∧ e ∈ events) ∧
    (∀ after max events, store.events_after s.fs after max = some events →
      ∀ e' ∈ events, e'.seq = e.seq → e' = e) ∧
    e.seq < store.next_seq

/-- A running process whose window and counter agree with the log. -/
structure Agrees (s : Session) (store : Store) : Prop where
  handle : s.fs.entries events_path = some store.log
  window : store.recent = (logged s.fs).rtake RECENT_CAP
  counter : ∀ e ∈ logged s.fs, e.seq < store.next_seq ∨ store.next_seq = U64.MAX
  ahead : ∀ e ∈ s.acknowledged, e.seq < store.next_seq

/-- The log is the complete lines of `es` and at most one torn line, with a number no
lower than theirs; the acknowledged events are among `es` and own their numbers. -/
structure Intact (s : Session) (es : List Event) (torn : Bytes) : Prop where
  file : logBytes s.fs = render es ++ torn
  torn_line : torn = [] ∨ ∃ e : Event, torn <+: encode e.row ∧ (∀ e' ∈ es, e'.seq ≤ e.seq) ∧
    ∀ e' ∈ s.acknowledged, e'.seq < e.seq
  sorted : es.Pairwise (fun a b => a.seq ≤ b.seq)
  owned : ∀ e ∈ s.acknowledged, e ∈ es ∧ e.seq < U64.MAX ∧ ∀ e' ∈ es, e'.seq = e.seq → e' = e
  running : ∀ store, s.process = some store → Agrees s store

theorem Intact.events {s : Session} {es : List Event} {torn : Bytes} (h : Intact s es torn) :
    logged s.fs = es ++ eventsIn torn := by
  rw [logged_eq, h.file, eventsIn_render_append]

/-- The whole history read back from the log is ordered, and acknowledged events own
their numbers in it. -/
theorem Intact.history {s : Session} {es : List Event} {torn : Bytes} (h : Intact s es torn) :
    (logged s.fs).Pairwise (fun a b => a.seq ≤ b.seq) ∧
      ∀ e ∈ s.acknowledged, e ∈ logged s.fs ∧ ∀ e' ∈ logged s.fs, e'.seq = e.seq → e' = e := by
  rw [h.events]
  rcases h.torn_line with rfl | ⟨e, hpre, habove, hahead⟩
  · have hnil : eventsIn [] = [] := rfl
    rw [hnil, List.append_nil]
    exact ⟨h.sorted, fun e he => ⟨(h.owned e he).1, (h.owned e he).2.2⟩⟩
  · rcases eventsIn_torn hpre with hnone | ⟨e', hsome, hseq⟩
    · rw [hnone, List.append_nil]
      exact ⟨h.sorted, fun e he => ⟨(h.owned e he).1, (h.owned e he).2.2⟩⟩
    · rw [hsome]
      constructor
      · rw [List.pairwise_append]
        refine ⟨h.sorted, List.pairwise_singleton _ _, fun a ha b hb => ?_⟩
        rw [List.mem_singleton.mp hb, hseq]
        exact habove a ha
      · intro a ha
        refine ⟨List.mem_append_left _ (h.owned a ha).1, fun b hb hab => ?_⟩
        rcases List.mem_append.mp hb with hb | hb
        · exact (h.owned a ha).2.2 b hb hab
        · rw [List.mem_singleton] at hb
          have hlt := hahead a ha
          rw [← hab, hb, hseq] at hlt
          exact absurd hlt (lt_irrefl _)

theorem Intact.durable {s : Session} {es : List Event} {torn : Bytes} (h : Intact s es torn) : Durable s := by
  intro store hstore e he
  obtain ⟨hsorted, howned⟩ := h.history
  obtain ⟨hmem, hunique⟩ := howned e he
  have hagrees := h.running store hstore
  have hahead := hagrees.ahead e he
  have hwindow : store.recent <:+ logged s.fs := hagrees.window ▸ List.drop_suffix _ _
  refine ⟨⟨store.recent.length + (logged s.fs).length + 1, fun max hmax after hafter => ?_⟩, ?_, hahead⟩
  · have hlimit : after < U64.MAX := hafter.trans (h.owned e he).2.1
    have hsource := mem_source hsorted hwindow hmem hmem hunique hahead hafter
    have hlen : ((store.source s.fs after).filter (fun e => after < e.seq)).length ≤ max := by
      refine (List.length_filter_le _ _).trans ?_
      unfold Store.source
      split <;> omega
    refine ⟨_, events_after_eq s.fs store hlimit (by omega), ?_⟩
    rw [List.take_of_length_le hlen]
    exact List.mem_filter.mpr ⟨hsource, by simpa using hafter⟩
  · intro after max events hevents e' he' hsame
    have hsource := (mem_source_of_mem_events_after hevents he').1
    refine hunique e' ?_ hsame
    unfold Store.source at hsource
    split at hsource
    · exact hwindow.subset hsource
    · exact hsource

theorem Intact.init : Intact .init [] [] where
  file := rfl
  torn_line := Or.inl rfl
  sorted := List.Pairwise.nil
  owned := by simp [Session.init]
  running := by simp [Session.init]

/-- A log that ends in a complete line has no torn one. -/
theorem Intact.torn_eq_nil {s : Session} {es : List Event} {torn : Bytes} (h : Intact s es torn)
    (hstart : AtLineStart s.fs) : torn = [] := by
  rcases h.torn_line with hnil | ⟨e, hpre, _⟩
  · exact hnil
  · by_contra hne
    have hnl : (10 : UInt8) ∉ encode e.row :=
      not_mem_encode (c := '\n') (by decide) (e.not_mem_row (by decide) (by decide))
    rw [AtLineStart, h.file, List.getLast?_append_of_ne_nil _ hne] at hstart
    rcases hstart with hempty | hlast
    · exact hne (List.append_eq_nil_iff.mp hempty).2
    · exact hnl (hpre.subset (List.mem_of_getLast? hlast))

/-- Opening reads the log and leaves it as it is. -/
theorem Intact.open {s : Session} {es : List Event} {torn : Bytes} (h : Intact s es torn) :
    Intact { s with fs := (Store.open s.fs).1, process := some (Store.open s.fs).2 } es torn := by
  have hbytes : logBytes (Store.open s.fs).1 = logBytes s.fs := by
    rw [logBytes, open_fs, FileSystem.openAppend_read_self]
    rfl
  have hlogged : logged (Store.open s.fs).1 = logged s.fs := by rw [logged_eq, logged_eq, hbytes]
  obtain ⟨hcounter, hwindow, _⟩ := open_spec s.fs
  refine ⟨hbytes.trans h.file, h.torn_line, h.sorted, h.owned, fun store hstore => ?_⟩
  obtain rfl : (Store.open s.fs).2 = store := by simpa using hstore
  refine ⟨?_, ?_, ?_, ?_⟩
  · simp only [open_fs, open_log, FileSystem.openAppend_entries_self]
  · simp only [hlogged, hwindow]
  · intro e he
    simp only [hlogged] at he
    simp only [hcounter]
    exact lt_or_eq_max_foldl_bump he 1
  · intro e he
    have hmem := (h.history.2 e he).1
    simp only [hcounter]
    rcases lt_or_eq_max_foldl_bump hmem 1 with hlt | hmax
    · exact hlt
    · rw [hmax]
      exact (h.owned e he).2.1

/-- An event numbered by the counter comes after everything in the log, and nothing
there has its number unless the counter is pinned. -/
theorem Agrees.event_ahead {s : Session} {es : List Event} {torn : Bytes} {store : Store}
    (h : Intact s es torn) (hstore : s.process = some store) (c : Call) :
    (∀ e ∈ es, e.seq ≤ (store.event c).seq) ∧ ∀ e ∈ s.acknowledged, e.seq < (store.event c).seq := by
  have hagrees := h.running store hstore
  refine ⟨fun e he => ?_, hagrees.ahead⟩
  rcases hagrees.counter e (by rw [h.events]; exact List.mem_append_left _ he) with hlt | hmax
  · exact hlt.le
  · change e.seq ≤ store.next_seq
    rw [hmax, Fin.le_def]
    simp only [U64.MAX]
    omega

/-- A whole line added at a line start extends the complete lines. -/
theorem Intact.append_line {s : Session} {es : List Event} (h : Intact s es []) {store : Store}
    (hstore : s.process = some store) {c : Call} {fs : FileSystem}
    (hbytes : logBytes fs = logBytes s.fs ++ encode (format_line (store.event c))) :
    logBytes fs = render (es ++ [store.event c]) ++ [] ∧
      (es ++ [store.event c]).Pairwise (fun a b => a.seq ≤ b.seq) ∧
      ∀ e ∈ s.acknowledged, e ∈ es ++ [store.event c] ∧ e.seq < U64.MAX ∧
        ∀ e' ∈ es ++ [store.event c], e'.seq = e.seq → e' = e := by
  obtain ⟨habove, hahead⟩ := Agrees.event_ahead h hstore c
  refine ⟨?_, ?_, fun e he => ?_⟩
  · rw [hbytes, h.file, render_append, render_singleton, List.append_nil, List.append_nil]
  · rw [List.pairwise_append]
    refine ⟨h.sorted, List.pairwise_singleton _ _, fun a ha b hb => ?_⟩
    rw [List.mem_singleton.mp hb]
    exact habove a ha
  · obtain ⟨hmem, hmax, hunique⟩ := h.owned e he
    refine ⟨List.mem_append_left _ hmem, hmax, fun e' he' hsame => ?_⟩
    rcases List.mem_append.mp he' with he' | he'
    · exact hunique e' he' hsame
    · rw [List.mem_singleton.mp he'] at hsame
      exact absurd (hahead e he) (by rw [hsame]; exact lt_irrefl _)

/-- An acknowledged append extends the complete lines and acknowledges its event. -/
theorem Intact.acknowledge {s : Session} {es : List Event} (h : Intact s es []) {store : Store}
    (hprocess : s.process = some store) {c : Call} {next_seq : U64}
    (hadd : checked_add store.next_seq 1 = some next_seq) {fs : FileSystem}
    (hentries : fs.entries = s.fs.entries)
    (hbytes : logBytes fs = logBytes s.fs ++ encode (format_line (store.event c))) :
    Intact
      { fs, process := some (store.recorded (store.event c) next_seq),
        acknowledged := s.acknowledged ++ [store.event c] } (es ++ [store.event c]) [] := by
  have hagrees := h.running store hprocess
  obtain ⟨hfile, hsorted, howned⟩ := h.append_line hprocess hbytes
  obtain ⟨habove, hahead⟩ := Agrees.event_ahead h hprocess c
  have hnext : next_seq.val = store.next_seq.val + 1 := checked_add_eq_some.mp hadd
  have hlimit : (store.event c).seq < U64.MAX := by
    have hlt := next_seq.isLt
    rw [Fin.lt_def]
    simp only [Store.event, U64.MAX]
    omega
  have hless : ∀ e ∈ es ++ [store.event c], e.seq < next_seq := by
    intro e he
    have hle : e.seq ≤ store.next_seq := by
      rcases List.mem_append.mp he with he | he
      · exact habove e he
      · rw [List.mem_singleton.mp he]
        exact le_rfl
    rw [Fin.le_def] at hle
    rw [Fin.lt_def]
    omega
  have hold : logged s.fs = es := by
    rw [h.events]
    exact List.append_nil es
  have hlogged : logged fs = es ++ [store.event c] := by
    rw [logged_eq, hfile, List.append_nil, eventsIn_render]
  refine ⟨hfile, Or.inl rfl, hsorted, fun e he => ?_, fun store' hstore' => ?_⟩
  · rcases List.mem_append.mp he with he | he
    · exact howned e he
    · obtain rfl := List.mem_singleton.mp he
      refine ⟨by simp, hlimit, fun e' he' hsame => ?_⟩
      rcases List.mem_append.mp he' with he' | he'
      · -- The counter was past every logged event, or no addition could have succeeded.
        rcases hagrees.counter e' (hold ▸ he') with hlt | hmax
        · exact absurd hlt (by rw [hsame]; exact lt_irrefl _)
        · exact absurd hlimit (by rw [← hmax]; exact lt_irrefl _)
      · exact List.mem_singleton.mp he'
  · obtain rfl : store.recorded (store.event c) next_seq = store' := by simpa using hstore'
    refine ⟨?_, ?_, ?_, ?_⟩
    · simp only [hentries]
      exact hagrees.handle
    · simp only [hlogged, Store.recorded, hagrees.window, hold, push_recent_rtake]
    · intro e he
      simp only [hlogged] at he
      exact Or.inl (hless e he)
    · intro e he
      rcases List.mem_append.mp he with he | he
      · exact hless e (List.mem_append_left _ (h.owned e he).1)
      · exact hless e (List.mem_append_right _ he)

/-- A crash inside an append at a line start leaves one torn line, or a whole one. -/
theorem Intact.crash {s : Session} {es : List Event} (h : Intact s es []) {store : Store}
    (hprocess : s.process = some store) (c : Call) {torn : Bytes}
    (htorn : torn <+: encode (format_line (store.event c))) :
    ∃ es' torn', Intact { s with fs := s.fs.append store.log torn, process := none } es' torn' := by
  have hbytes := logBytes_append (h.running store hprocess).handle torn
  rcases prefix_format_line htorn with hwhole | hpart
  · obtain ⟨hfile, hsorted, howned⟩ := h.append_line hprocess (hwhole ▸ hbytes)
    refine ⟨es ++ [store.event c], [], ?_, Or.inl rfl, hsorted, howned, by simp⟩
    rw [hwhole]
    exact hfile
  · refine ⟨es, torn, ?_, Or.inr ⟨store.event c, hpart, Agrees.event_ahead h hprocess c⟩, h.sorted,
      h.owned, by simp⟩
    rw [hbytes, h.file, List.append_nil]

/-- Each step that adds to complete lines only keeps the log intact. -/
theorem step_intact {s s' : Session} {a : Action} (hinv : ∃ es torn, Intact s es torn)
    (hadds : AddsToCompleteLines s a) (hstep : step s a = some s') : ∃ es torn, Intact s' es torn := by
  obtain ⟨es, torn, h⟩ := hinv
  cases a with
  | «open» =>
    simp only [step, Option.some.injEq] at hstep
    exact ⟨es, torn, hstep ▸ h.open⟩
  | append c =>
    cases hprocess : s.process with
    | none => simp [step, hprocess] at hstep
    | some store =>
      have hagrees := h.running store hprocess
      simp only [step, hprocess] at hstep
      rcases call_cases s.fs store c none with ⟨_, hcall⟩ | ⟨_, hfault, _⟩ | ⟨_, _, _, hcall⟩ |
          ⟨hfresh, _, next_seq, hadd, hcall⟩
      · rw [hcall] at hstep
        simp only [Option.some.injEq] at hstep
        have hsame : s' = s := by rw [← hstep, ← hprocess]
        exact ⟨es, torn, hsame ▸ h⟩
      · simp at hfault
      · rw [hcall] at hstep
        simp at hstep
      · rw [hcall] at hstep
        simp only [Option.some.injEq] at hstep
        obtain rfl := h.torn_eq_nil (hadds store hprocess hfresh)
        subst hstep
        exact ⟨_, _, h.acknowledge hprocess hadd rfl (logBytes_append hagrees.handle _)⟩
  | crash c written =>
    cases hprocess : s.process with
    | none => simp [step, hprocess] at hstep
    | some store =>
      simp only [step, hprocess, Option.some.injEq] at hstep
      subst hstep
      by_cases hfresh : (store.event c).key ∈ store.seen
      · rw [call_of_seen hfresh]
        exact ⟨es, torn, h.file, h.torn_line, h.sorted, h.owned, by simp⟩
      · rw [call_write_of_fresh hfresh]
        cases written with
        | zero =>
          refine ⟨es, torn, ?_, h.torn_line, h.sorted, h.owned, by simp⟩
          rw [logBytes_append (h.running store hprocess).handle, List.take_zero, List.append_nil, h.file]
        | succ written =>
          obtain rfl := h.torn_eq_nil (hadds store hprocess hfresh (Nat.succ_pos _))
          exact h.crash hprocess c (List.take_prefix _ _)

/-- Crash durability: in every run that only ever adds bytes to a log ending in a
complete line, acknowledged events survive every crash and reopening under their
own numbers. -/
theorem acknowledged_events_durable {actions : List Action} {s : Session}
    (hrun : machine.Run step .init actions s)
    (hadds : machine.Along step AddsToCompleteLines .init actions) : Durable s := by
  obtain ⟨es, torn, h⟩ := hrun.invariant_along (fun s => ∃ es torn, Intact s es torn)
    (fun _ _ _ hinv hadds hstep => step_intact hinv hadds hstep) hadds ⟨[], [], .init⟩
  exact h.durable

/-- One acknowledged append, and a crash three bytes into the next one. -/
def tornRun : List Action :=
  [.open, .append .sample, .crash { Call.sample with ts := [] } 3, .open]

theorem acknowledged_events_durable_torn :
    ∃ s, machine.Run step .init tornRun s ∧ s.acknowledged.length = 1 ∧ Durable s := by
  refine ⟨_, rfl, rfl, acknowledged_events_durable (show machine.Run step .init tornRun _ from rfl) ?_⟩
  refine .cons trivial rfl (.cons ?_ rfl (.cons ?_ rfl (.cons trivial rfl trivial)))
  · exact fun _ _ _ => Or.inl rfl
  · exact fun _ _ _ _ => Or.inr rfl

/-- An append after a crash that left `1` and a tab merges with that fragment: once
the log has been read again the event is gone, and its number is handed out again. -/
theorem append_after_torn_line_lost : ∃ actions s, machine.Run step .init actions s ∧ ¬ Durable s := by
  have hlost : ([.open, .crash .sample 2, .open, .append .sample, .open].foldlM step .init).any (fun s =>
      s.process.any fun store => s.acknowledged.any fun e => store.next_seq ≤ e.seq) = true := by
    decide +kernel
  obtain ⟨s, hrun, hs⟩ := (Option.any_eq_true _ _).mp hlost
  obtain ⟨store, hstore, hreused⟩ := (Option.any_eq_true _ _).mp hs
  obtain ⟨e, he, hle⟩ := List.any_eq_true.mp hreused
  refine ⟨_, s, hrun, fun hdurable => ?_⟩
  exact absurd (hdurable store hstore e he).2.2 (not_lt.mpr (of_decide_eq_true hle))

end yt_websub.store.durability
