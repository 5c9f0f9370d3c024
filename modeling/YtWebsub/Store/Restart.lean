import YtWebsub.Store.Lifecycle

open rust rust.utf8 rust.text rust.num rust.fs

namespace yt_websub.store

/-- The keys of a window. -/
def keys (recent : List Event) : List Text :=
  recent.map Event.key

/-- Pushing an event with a new key keeps the key set exact: the key erased with the
evicted event is carried by no other event of the window. -/
theorem push_seen_keys {recent : List Event} {e : Event} (hdistinct : (keys recent).Nodup)
    (hnew : e.key ∉ keys recent) :
    push_seen (keys recent).toFinset recent e = (keys (push_recent recent e)).toFinset ∧
      (keys (push_recent recent e)).Nodup := by
  have hpushed : (keys (recent ++ [e])).Nodup := by
    rw [keys, List.map_append, List.nodup_append']
    refine ⟨hdistinct, List.nodup_singleton _, ?_⟩
    rw [List.map_singleton, List.disjoint_singleton]
    exact hnew
  refine ⟨?_, hpushed.sublist ((lifecycle.push_recent_suffix recent e).sublist.map _)⟩
  cases recent with
  | nil => simp [push_seen, push_recent, keys, RECENT_CAP]
  | cons old rest =>
    have hinsert : insert e.key (keys (old :: rest)).toFinset = (keys (old :: (rest ++ [e]))).toFinset := by
      ext key
      simp [keys]
      tauto
    simp only [push_seen, push_recent, List.cons_append, hinsert]
    split
    · obtain ⟨hold, _⟩ := List.nodup_cons.mp hpushed
      rw [List.tail_cons, keys, List.map_cons, List.toFinset_cons, Finset.erase_insert]
      · rfl
      · rw [List.mem_toFinset]
        exact hold
    · rfl

namespace lifecycle

/-- What the process holds in memory is what opening its directory would rebuild. -/
structure Mirrored (s : Session) : Prop extends Intact s.fs s.process where
  counter : s.process.next_seq = (logged s.fs).foldl bump 1
  window : s.process.recent = (logged s.fs).rtake RECENT_CAP
  seen : s.process.seen = (keys s.process.recent).toFinset
  distinct : (keys s.process.recent).Nodup
  ack : s.process.ack_through = load_ack s.fs

theorem Mirrored.init : Mirrored .init where
  toIntact := .init
  counter := rfl
  window := rfl
  seen := rfl
  distinct := List.nodup_nil
  ack := rfl

/-- Opening the directory of a mirrored process gives back the process. -/
theorem Mirrored.open_eq {s : Session} (h : Mirrored s) : Store.open s.fs = (s.fs, s.process) := by
  have hopened : s.fs.openAppend events_path = (s.fs, s.process.log) := by
    simp only [FileSystem.openAppend, h.handle]
  obtain ⟨hcounter, hwindow, hseen⟩ := open_spec s.fs
  have hlog : (Store.open s.fs).2.log = s.process.log := by rw [open_log, hopened]
  have hack : (Store.open s.fs).2.ack_through = s.process.ack_through := h.ack.symm
  refine Prod.ext ?_ ?_
  · rw [open_fs, hopened]
  · rw [← h.counter] at hcounter
    rw [← h.window] at hwindow
    rw [hwindow] at hseen
    have hseen' := hseen.trans h.seen.symm
    show (Store.open s.fs).2 = s.process
    cases hopen : (Store.open s.fs).2
    cases hprocess : s.process
    simp only [hopen, hprocess] at hcounter hwindow hseen' hlog hack
    rw [hcounter, hwindow, hseen', hlog, hack]

theorem Mirrored.reopen {s : Session} (h : Mirrored s) : step s .reopen = some s := by
  simp only [step, h.open_eq]

/-- An append moves the counter, the window and the key set as a restart would. -/
theorem Mirrored.append {s : Session} (h : Mirrored s) {c : Call} {fs : FileSystem} {next_seq : U64}
    (hnew : c.key ∉ s.process.seen) (hadd : checked_add s.process.next_seq 1 = some next_seq)
    (hintact : Intact fs (s.process.recorded (s.process.event c) next_seq))
    (hlogged : logged fs = logged s.fs ++ [s.process.event c]) (hack : load_ack fs = load_ack s.fs)
    (history : List Event) :
    Mirrored { s with fs, process := s.process.recorded (s.process.event c) next_seq, history } := by
  rw [h.seen, List.mem_toFinset, ← event_key s.process] at hnew
  obtain ⟨hseen, hdistinct⟩ := push_seen_keys h.distinct hnew
  refine ⟨hintact, ?_, ?_, ?_, hdistinct, h.ack.trans hack.symm⟩
  · have hnext := checked_add_eq_some.mp hadd
    have hlt := next_seq.isLt
    simp only [hlogged, List.foldl_append, List.foldl_cons, List.foldl_nil]
    rw [← h.counter, bump, if_pos (show s.process.next_seq ≤ (s.process.event c).seq from le_rfl)]
    refine Fin.ext ?_
    rw [saturating_add_val]
    change next_seq.val = min (s.process.next_seq.val + 1) _
    omega
  · simp only [hlogged, ← push_recent_rtake]
    rw [← h.window]
    rfl
  · rw [← h.seen] at hseen
    exact hseen

theorem Mirrored.set_ack {s : Session} (h : Mirrored s) (through : U64) :
    Mirrored
      { s with
        fs := (s.process.set_ack s.fs through none).1
        process := (s.process.set_ack s.fs through none).2 } := by
  obtain ⟨fs, ack_through, hset, hintact, hlogged, hack⟩ := h.toIntact.set_ack through
  rw [hset]
  refine ⟨hintact, ?_, ?_, h.seen, h.distinct, (hack h.ack.symm).symm⟩
  · rw [hlogged]
    exact h.counter
  · rw [hlogged]
    exact h.window

theorem step_mirrored {s s' : Session} {a : Action} (h : Mirrored s) (hkept : a ≠ .compact)
    (hstep : step s a = some s') : Mirrored s' := by
  cases a with
  | append c =>
    obtain rfl | ⟨hnew, fs, next_seq, hadd, rfl, hintact, hlogged, hack⟩ := step_append h.toIntact hstep
    · exact h
    · exact h.append hnew hadd hintact hlogged hack _
  | poll max =>
    simp only [step] at hstep
    split at hstep
    · cases hstep
    · rw [Option.some.injEq] at hstep
      subst hstep
      exact ⟨h.toIntact, h.counter, h.window, h.seen, h.distinct, h.ack⟩
  | set_ack through =>
    simp only [step, Option.some.injEq] at hstep
    subst hstep
    exact h.set_ack through
  | compact => exact absurd rfl hkept
  | reopen =>
    rw [h.reopen, Option.some.injEq] at hstep
    exact hstep ▸ h

/-- Dropping the store and opening its directory again gives back the same store, as
long as nothing was compacted: a restart can be put anywhere without changing a later
append or poll. -/
theorem restart_invisible {actions : List Action} {s : Session} (hrun : machine.Run step .init actions s)
    (huncompacted : Action.compact ∉ actions) :
    Store.open s.fs = (s.fs, s.process) ∧ (Store.open s.fs).2.recent.length ≤ RECENT_CAP ∧
      ∀ (later : List Action) (s' : Session),
        machine.Run step s (.reopen :: later) s' ↔ machine.Run step s later s' := by
  have hmirrored : Mirrored s :=
    hrun.invariant_along Mirrored (fun _ _ _ h hkept hstep => step_mirrored h hkept hstep)
      (.of_forall (P := fun _ a => a ≠ Action.compact) (fun a ha _ heq => huncompacted (heq ▸ ha)) _) .init
  refine ⟨hmirrored.open_eq, ?_, fun later s' => ?_⟩
  · rw [(open_spec s.fs).2.1, List.rtake, List.length_drop]
    omega
  · rw [machine.run_cons]
    constructor
    · rintro ⟨mid, hmid, hrest⟩
      rw [hmirrored.reopen, Option.some.injEq] at hmid
      exact hmid ▸ hrest
    · exact fun h => ⟨s, hmirrored.reopen, h⟩

/-- An event, a duplicate of it and an acknowledgement before the restart. -/
def duplicateRun : List Action :=
  [.append .sample, .append .sample, .set_ack 1]

theorem restart_invisible_duplicate :
    ∃ s, machine.Run step .init duplicateRun s ∧ s.process.recent.length = 1 ∧
      Store.open s.fs = (s.fs, s.process) := by
  refine ⟨_, rfl, rfl, (restart_invisible (show machine.Run step .init duplicateRun _ from rfl) ?_).1⟩
  simp [duplicateRun]

end lifecycle

end yt_websub.store
