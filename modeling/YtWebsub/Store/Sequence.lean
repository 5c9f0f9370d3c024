import YtWebsub.Store.Lifecycle

open rust rust.utf8 rust.text rust.num rust.fs
open yt_websub.util
open paging

namespace yt_websub.store.lifecycle

/-- `max_seq` does not fall across the step. -/
def KeepsMaxSeq (s : Session) (a : Action) : Prop :=
  ∀ s', step s a = some s' → s.process.max_seq ≤ s'.process.max_seq

/-- `max_seq` is the number of the last event. -/
theorem Ordered.max_seq_val {s : Session} (h : Ordered s) :
    s.process.max_seq.val = (s.history.getLast?.map fun e => e.seq.val).getD 0 := by
  rw [Store.max_seq, saturating_sub_val, h.counter]
  omega

theorem history_extends {s s' : Session} {a : Action} (hstep : step s a = some s') : s.history <+: s'.history := by
  cases a with
  | append c =>
    simp only [step] at hstep
    split at hstep
    · simp only [Option.some.injEq] at hstep
      exact hstep ▸ List.prefix_append _ _
    · simp only [Option.some.injEq] at hstep
      exact hstep ▸ List.prefix_rfl
    · cases hstep
  | poll max =>
    simp only [step] at hstep
    split at hstep
    · cases hstep
    · simp only [Option.some.injEq] at hstep
      exact hstep ▸ List.prefix_rfl
  | set_ack through =>
    simp only [step, Option.some.injEq] at hstep
    exact hstep ▸ List.prefix_rfl
  | compact =>
    simp only [step] at hstep
    split at hstep
    · simp only [Option.some.injEq] at hstep
      exact hstep ▸ List.prefix_rfl
    · cases hstep
  | reopen =>
    simp only [step, Option.some.injEq] at hstep
    exact hstep ▸ List.prefix_rfl

/-- Between two ordered sessions whose histories extend each other, `max_seq` does not fall. -/
theorem Ordered.max_seq_le {s s' : Session} (h : Ordered s) (h' : Ordered s')
    (hpre : s.history <+: s'.history) : s.process.max_seq ≤ s'.process.max_seq := by
  rw [Fin.le_def, h.max_seq_val]
  cases hlast : s.history.getLast? with
  | none => exact Nat.zero_le _
  | some last =>
    have hlt := h'.lt_counter (hpre.subset (List.mem_of_getLast? hlast))
    rw [Fin.lt_def] at hlt
    rw [Store.max_seq, saturating_sub_val]
    simp only [Option.map_some, Option.getD_some]
    omega

/-- A restart that finds no event left numbers from 1 again. -/
theorem open_of_logged_nil {fs : FileSystem} (h : logged fs = []) :
    (Store.open fs).2.next_seq = 1 ∧ (Store.open fs).2.seen = ∅ := by
  obtain ⟨hcounter, hwindow, hkeys⟩ := open_spec fs
  rw [hkeys, hwindow, hcounter, h]
  exact ⟨rfl, rfl⟩

/-- A restart keeps `max_seq` only if it finds an event left, or none was ever written. -/
theorem Ordered.reopensKeptLog {s : Session} (h : Ordered s) {a : Action} (hkeeps : KeepsMaxSeq s a) :
    ReopensKeptLog s a := by
  cases a with
  | reopen =>
    by_contra hlost
    simp only [ReopensKeptLog, not_or, not_not] at hlost
    obtain ⟨hne, hempty⟩ := hlost
    have hle : s.process.max_seq ≤ (Store.open s.fs).2.max_seq := hkeeps _ rfl
    rw [Fin.le_def, h.max_seq_val, List.getLast?_eq_some_getLast hne, Option.map_some, Option.getD_some] at hle
    have hpositive := h.positive _ (List.getLast_mem hne)
    simp only [Store.max_seq, (open_of_logged_nil hempty).1] at hle
    have hzero : (saturating_sub 1 1 : U64).val = 0 := rfl
    omega
  | _ => trivial

/-- Numbers are assigned in increasing order and `max_seq` never falls exactly in the
runs whose restarts find an event left in the log (or never had one to lose). -/
theorem seqs_never_reused_iff {actions : List Action} {s : Session} (hrun : machine.Run step .init actions s) :
    (Increasing Event.seq s.history ∧ machine.Along step KeepsMaxSeq .init actions) ↔
      machine.Along step ReopensKeptLog .init actions := by
  constructor
  · rintro ⟨_, hkeeps⟩
    exact hkeeps.of_invariant Ordered (fun s a s' h hkeeps hstep => step_ordered h (h.reopensKeptLog hkeeps) hstep)
      (fun s a h hkeeps => h.reopensKeptLog hkeeps) .init
  · intro hkept
    have hordered := hrun.invariant_along Ordered (fun s a s' h => step_ordered h) hkept .init
    refine ⟨hordered.increasing, ?_⟩
    exact hkept.of_invariant Ordered (fun s a s' h => step_ordered h)
      (fun s a h hkept s' hstep => h.max_seq_le (step_ordered h hkept hstep) (history_extends hstep)) .init

/-- A restart between two appends. -/
def restartRun : List Action :=
  [.append .sample, .reopen, .append { Call.sample with ts := [] }]

theorem seqs_never_reused_restart :
    ∃ s, machine.Run step .init restartRun s ∧ Increasing Event.seq s.history ∧
      machine.Along step KeepsMaxSeq .init restartRun := by
  refine ⟨_, rfl, (seqs_never_reused_iff (show machine.Run step .init restartRun _ from rfl)).mpr ?_⟩
  exact .cons trivial rfl (.cons (Or.inr (by decide +kernel)) rfl (.cons trivial rfl trivial))

/-- A new key is appended under the next number. -/
theorem append_fresh {s : Session} {c : Call} (hfresh : c.key ∉ s.process.seen)
    (hroom : s.process.next_seq.val + 1 < 2 ^ 64) :
    ∃ s', step s (.append c) = some s' ∧
      s'.process.next_seq.val = s.process.next_seq.val + 1 ∧
      s'.history = s.history ++ [s.process.event c] ∧
      s'.process.recent = push_recent s.process.recent (s.process.event c) ∧
      s'.fs = (s.fs.append s.process.log (encode (format_line (s.process.event c)))).sync s.process.log := by
  rcases call_cases s.fs s.process c none with ⟨hseen, _⟩ | ⟨_, hfault, _⟩ | ⟨_, _, hadd, _⟩ |
      ⟨_, _, next_seq, hadd, hcall⟩
  · exact absurd hseen hfresh
  · simp at hfault
  · rw [checked_add_of_lt hroom] at hadd
    cases hadd
  · refine ⟨{ s with
      fs := (s.fs.append s.process.log (encode (format_line (s.process.event c)))).sync s.process.log
      process := s.process.recorded (s.process.event c) next_seq
      history := s.history ++ [s.process.event c] }, ?_, checked_add_eq_some.mp hadd, rfl, rfl, rfl⟩
    simp only [step, hcall]

theorem Ordered.seen_subset {s : Session} (h : Ordered s) {key : Text} (hkey : key ∈ s.process.seen) :
    key ∈ s.history.map Event.key := by
  have hmem := h.keys hkey
  rw [List.mem_toFinset] at hmem
  exact List.map_subset _ h.window.subset hmem

/-- Appends of different keys all succeed: each adds its event to the history, the log and
the window, and its title adds its length to the log. -/
theorem Ordered.append_all {calls : List Call} :
    ∀ {s : Session}, Ordered s → (s.history.map Event.key ++ calls.map Call.key).Nodup →
      s.process.next_seq.val + calls.length < 2 ^ 64 →
      ∃ s' es, machine.Run step s (calls.map .append) s' ∧ Ordered s' ∧ es.length = calls.length ∧
        s'.process.next_seq.val = s.process.next_seq.val + calls.length ∧ s'.history = s.history ++ es ∧
        logged s'.fs = logged s.fs ++ es ∧ s'.process.recent = es.foldl push_recent s.process.recent ∧
        (logBytes s.fs).length + (calls.map fun c => c.title.length).sum ≤ (logBytes s'.fs).length := by
  induction calls with
  | nil => exact fun {s} h _ _ => ⟨s, [], rfl, h, rfl, rfl, by simp, by simp, rfl, by simp⟩
  | cons c calls ih =>
    intro s h hnodup hroom
    rw [List.length_cons] at hroom
    have hfresh : c.key ∉ s.process.seen := fun hseen =>
      (List.disjoint_of_nodup_append hnodup) (h.seen_subset hseen) List.mem_cons_self
    obtain ⟨mid, hstep, hnext, hhistory, hrecent, hfs⟩ := append_fresh hfresh (by omega)
    have hmid := step_ordered (a := .append c) h trivial hstep
    have hbytes : logBytes mid.fs = logBytes s.fs ++ encode (format_line (s.process.event c)) := by
      rw [hfs]
      exact logBytes_append h.handle _
    have hlogged : logged mid.fs = logged s.fs ++ [s.process.event c] := by
      rw [logged_eq, hbytes, h.file, ← render_singleton, ← render_append, eventsIn_render]
    obtain ⟨s', es, hrun, h', hlength, hnext', hhistory', hlogged', hrecent', hlen⟩ := ih hmid (by
      rw [hhistory, List.map_append, List.append_assoc]
      exact hnodup) (by omega)
    refine ⟨s', s.process.event c :: es, machine.run_cons.mpr ⟨mid, hstep, hrun⟩, h', congrArg (· + 1) hlength,
      ?_, ?_, ?_, ?_, ?_⟩
    · rw [hnext', hnext, List.length_cons]
      omega
    · rw [hhistory', hhistory, List.append_assoc, List.singleton_append]
    · rw [hlogged', hlogged, List.append_assoc, List.singleton_append]
    · rw [hrecent', hrecent, List.foldl_cons]
    · have htitle := (s.process.event c).title_length_le
      rw [hbytes, List.length_append] at hlen
      simp only [List.map_cons, List.sum_cons]
      simp only [Store.event] at htitle hlen
      omega

/-- An acknowledgement leaves everything but the cursor as it is. -/
theorem set_ack_spec (s : Session) (through : U64) :
    ∃ s', step s (.set_ack through) = some s' ∧ through ≤ s'.process.ack_through ∧
      s'.process.next_seq = s.process.next_seq ∧ s'.process.recent = s.process.recent ∧ s'.history = s.history ∧
      logBytes s'.fs = logBytes s.fs := by
  rcases set_ack_cases s.fs s.process through with ⟨hle, hsame⟩ | ⟨_, fs, hset, _, _, hread⟩
  · exact ⟨s, by simp only [step, hsame], hle, rfl, rfl, rfl, rfl⟩
  · refine ⟨{ s with fs, process := { s.process with ack_through := through } }, ?_, le_rfl, rfl, rfl, rfl, ?_⟩
    · simp only [step, hset]
    · rw [logBytes, hread, logBytes]

/-- After the highest acknowledgement, compacting a log of the threshold size empties it. -/
theorem Ordered.emptied {s : Session} (h : Ordered s) (hlarge : COMPACT_BYTES ≤ (logBytes s.fs).length)
    (hlow : s.process.next_seq.val + COMPACT_MARGIN < 2 ^ 64) :
    ∃ s', machine.Run step s [.set_ack U64.MAX, .compact] s' ∧ Ordered s' ∧ logged s'.fs = [] ∧
      s'.history = s.history := by
  obtain ⟨mid, hack, hacked, hnext, _, hhistory, hbytes⟩ := set_ack_spec s U64.MAX
  have hmax := eq_max_of_le hacked
  have hmid := step_ordered (a := .set_ack U64.MAX) h trivial hack
  obtain ⟨fs, log, hcompact, _, _, _, hcases⟩ := hmid.compact_spec
  have hbound : ∀ e ∈ logged mid.fs, e.seq ≤ mid.process.keep_above := by
    intro e he
    have hlt := hmid.lt_counter (hmid.kept.subset he)
    rw [hnext, Fin.lt_def] at hlt
    refine le_max_of_le_left ?_
    rw [Fin.le_def, saturating_sub_val, hmax]
    simp only [U64.MAX]
    omega
  have hempty : logged fs = [] := by
    rcases hcases with ⟨hsame, hsmall | hnone⟩ | ⟨_, hfiltered⟩
    · rw [hbytes] at hsmall
      omega
    · rw [hsame, List.eq_nil_iff_forall_not_mem]
      exact fun e he => absurd (hnone e he) (not_lt.mpr (hbound e he))
    · rw [hfiltered, List.filter_eq_nil_iff]
      exact fun e he => by simpa using hbound e he
  exact ⟨_, machine.run_cons.mpr ⟨mid, hack, machine.run_singleton.mpr hcompact⟩,
    step_ordered (a := .compact) hmid trivial hcompact, hempty, hhistory⟩

/-- Three events with titles of three mebibytes. -/
def longTitles : List Call :=
  ["dQw4w9WgXcQ", "abc123XYZ_-", "delVID00000"].map fun video_id =>
    { Call.sample with video_id := video_id.toList, title := List.replicate (3 * 1024 * 1024) 'x' }

/-- Once a compaction has emptied the log, a restart starts numbering again: the
fourth event gets the number of the first. -/
theorem seq_reused_after_emptying :
    ∃ actions s, machine.Run step .init actions s ∧ ¬ Increasing Event.seq s.history := by
  have hkeys : ((Session.init.history.map Event.key) ++ longTitles.map Call.key).Nodup := by decide
  obtain ⟨full, es, hfill, hordered, hcount, hnext, hfull, _, _, hlen⟩ := Ordered.init.append_all hkeys (by decide)
  have hfirst : Session.init.process.next_seq.val = 1 := rfl
  have hcalls : longTitles.length = 3 := rfl
  have htitles : (longTitles.map fun c => c.title.length).sum = 3 * (3 * 1024 * 1024) := by
    simp only [longTitles, List.map_cons, List.map_nil, List.sum_cons, List.sum_nil, List.length_replicate]
    omega
  obtain ⟨empty, hemptying, hordered', hempty, hhistory⟩ := hordered.emptied
    (by simp only [COMPACT_BYTES]; omega) (by simp only [COMPACT_MARGIN]; omega)
  obtain ⟨hone, hseen⟩ := open_of_logged_nil hempty
  obtain ⟨s, hreopen, hprocess, hhistory'⟩ : ∃ s, step empty .reopen = some s ∧
      s.process = (Store.open empty.fs).2 ∧ s.history = empty.history := ⟨_, rfl, rfl, rfl⟩
  obtain ⟨reused, happend, _, hreused, _⟩ := append_fresh (s := s) (c := .sample)
    (by rw [hprocess, hseen]; exact Finset.notMem_empty _) (by rw [hprocess, hone]; decide)
  refine ⟨longTitles.map .append ++ ([.set_ack U64.MAX, .compact] ++ [.reopen, .append .sample]), reused,
    machine.run_append.mpr ⟨full, hfill, machine.run_append.mpr ⟨empty, hemptying,
      machine.run_cons.mpr ⟨s, hreopen, machine.run_singleton.mpr happend⟩⟩⟩, fun hincreasing => ?_⟩
  rw [hreused, hhistory', Increasing, List.pairwise_append] at hincreasing
  have hne : full.history ≠ [] := by
    rw [hfull]
    exact List.append_ne_nil_of_right_ne_nil _ (List.length_pos_iff.mp (by omega))
  have hmem : full.history.head hne ∈ empty.history := hhistory.symm ▸ List.head_mem hne
  have hlt := hincreasing.2.2 _ hmem _ (List.mem_singleton_self _)
  have hpositive := hordered'.positive _ hmem
  have hagain : (s.process.event .sample).seq.val = 1 := by
    rw [Store.event, hprocess, hone]
    rfl
  rw [Fin.lt_def] at hlt
  omega

end yt_websub.store.lifecycle
