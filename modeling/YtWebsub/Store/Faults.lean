import YtWebsub.Store.Window

open rust rust.utf8 rust.text rust.num rust.fs
open yt_websub.util
open paging

namespace yt_websub.store

open lifecycle (Numbered Ordered)

/-- Opening the directory finds the event: a poll from any earlier cursor with room for the
whole log returns it. -/
def Recovered (fs : FileSystem) (e : Event) : Prop :=
  ∀ after max, after < e.seq → (logged fs).length ≤ max →
    e ∈ (Store.open fs).2.events_after_wrapping (Store.open fs).1 after max

/-- Whatever stands in the log is recovered. -/
theorem lifecycle.Numbered.recovered {fs : FileSystem} {store : Store} (h : Numbered fs store) {e : Event}
    (he : e ∈ logged fs) : Recovered fs e := by
  intro after max hafter hmax
  obtain ⟨⟨history, hordered⟩, hlogged⟩ := h.reopen
  have hcovered : (Store.open fs).2.recent <:+ logged (Store.open fs).1 := by
    rw [(open_spec fs).2.1, hlogged]
    exact List.drop_suffix _ _
  have hread := hordered.events_after_covered hcovered after (hlogged.symm ▸ hmax)
  change (Store.open fs).2.events_after_wrapping (Store.open fs).1 after max = _ at hread
  rw [hread]
  exact List.mem_filter.mpr ⟨hlogged.symm ▸ he, decide_eq_true hafter⟩

theorem lifecycle.Numbered.nodup {fs : FileSystem} {store : Store} (h : Numbered fs store) :
    ((logged fs).map Event.seq).Nodup := by
  obtain ⟨history, hordered⟩ := h
  exact List.pairwise_map.mpr ((hordered.increasing.of_suffix hordered.kept).imp ne_of_lt)

namespace faults

/-- A running store whose file operations may fail, without crashes. -/
structure Session where
  fs : FileSystem
  process : Store
  /-- Every event for which `append` returned `Ok(Some(seq))`, until a compaction drops it
  at or below its bound. -/
  acknowledged : List Event

def Session.init : Session where
  fs := (Store.open .empty).1
  process := (Store.open .empty).2
  acknowledged := []

inductive Action where
  | append (c : Call) (fault : Option AppendFault)
  | set_ack (through : U64) (fault : Option AtomicFault)
  | compact (fault : Option CompactFault)
  | reopen

def step (s : Session) : Action → Option Session
  | .append c fault =>
    match s.process.call s.fs c fault with
    | (fs, store, .ok (some seq)) =>
      some { fs, process := store, acknowledged := s.acknowledged ++ [{ s.process.event c with seq }] }
    | (fs, store, .ok none) => some { s with fs, process := store }
    | (fs, store, .err) => some { s with fs, process := store }
    | _ => none
  | .set_ack through fault =>
    let (fs, store) := s.process.set_ack s.fs through fault
    some { s with fs, process := store }
  | .compact fault =>
    let (fs, store, _) := s.process.maybe_compact s.fs fault
    let kept (e : Event) : Bool := e ∈ logged fs ∨ s.process.keep_above < e.seq
    some { fs, process := store, acknowledged := s.acknowledged.filter kept }
  | .reopen =>
    let (fs, store) := Store.open s.fs
    some { s with fs, process := store }

/-- A failing append of a new event leaves no byte of its line, and no compaction fails to
reopen the log. -/
def Clean (s : Session) : Action → Prop
  | .append c fault => c.key ∉ s.process.seen → fault.isSome → fault = some (.write 0)
  | .compact fault => fault ≠ some .reopen
  | _ => True

/-- An append that meets an I/O error. -/
def Action.failing : Action → Bool
  | .append _ fault => fault.isSome
  | _ => false

/-- The acknowledged events are in the log, which is numbered in order. -/
structure Sound (s : Session) : Prop where
  numbered : Numbered s.fs s.process
  kept : ∀ e ∈ s.acknowledged, e ∈ logged s.fs

theorem Sound.init : Sound .init where
  numbered := Ordered.init.numbered
  kept := by simp [Session.init]

/-- A failing append that leaves no byte leaves the store as it was. -/
theorem step_failing {s s' : Session} {c : Call} {fault : AppendFault} (hclean : Clean s (.append c (some fault)))
    (hstep : step s (.append c (some fault)) = some s') : s' = s := by
  by_cases hseen : c.key ∈ s.process.seen
  · simp only [step, call_of_seen hseen, Option.some.injEq] at hstep
    exact hstep.symm
  · obtain rfl := Option.some.inj (hclean hseen rfl)
    simp only [step, call_write_of_fresh hseen, List.take_zero, FileSystem.append_nil, Option.some.injEq] at hstep
    exact hstep.symm

theorem Sound.append {s s' : Session} (h : Sound s) {c : Call} (hstep : step s (.append c none) = some s') :
    Sound s' := by
  simp only [step] at hstep
  split at hstep
  · rename_i hcall
    cases hstep
    obtain ⟨hnone, _⟩ | ⟨hseq, hnumbered, hlogged⟩ := h.numbered.call hcall
    · cases hnone
    · cases hseq
      refine ⟨hnumbered, fun e he => ?_⟩
      rw [hlogged]
      exact (List.mem_append.mp he).elim (fun he => List.mem_append_left _ (h.kept e he)) (List.mem_append_right _)
  · rename_i hcall
    cases hstep
    obtain ⟨_, rfl, rfl⟩ | ⟨hsome, _⟩ := h.numbered.call hcall
    · exact h
    · cases hsome
  · -- Only an I/O error makes an append fail.
    rename_i hcall
    obtain ⟨_, _, _, hok⟩ | ⟨_, _, _, _, hok, _⟩ := h.numbered.intact.call hcall (by simp) <;> cases hok
  · cases hstep

/-- A compaction that can reopen the log loses no event above its bound, wherever it fails. -/
theorem Sound.compact {s s' : Session} (h : Sound s) {fault : Option CompactFault} (hclean : fault ≠ some .reopen)
    (hstep : step s (.compact fault) = some s') :
    Sound s' ∧ ∀ e ∈ logged s.fs, s.process.keep_above < e.seq → e ∈ logged s'.fs := by
  have hnumbered : Numbered s'.fs s'.process ∧
      ∀ e ∈ logged s.fs, s.process.keep_above < e.seq → e ∈ logged s'.fs := by
    simp only [step, Option.some.injEq] at hstep
    subst hstep
    obtain ⟨_, htmp, _⟩ := tmp_paths
    obtain ⟨huntouched, hstore, _⟩ | ⟨_, fs, tmp, hread, hentries, _, _, ⟨hfault, _⟩ | ⟨_, hresult⟩⟩ :=
      maybe_compact_cases s.fs s.process fault
    · obtain ⟨hentries, hread⟩ := huntouched events_path htmp.symm
      obtain ⟨hnumbered, hlogged⟩ := h.numbered.unmoved hentries hread s.process.ack_through
      rw [hstore]
      exact ⟨hnumbered, fun e he _ => hlogged.symm ▸ he⟩
    · exact absurd hfault hclean
    · have hbytes : logBytes fs = render ((logged s.fs).filter fun e => s.process.keep_above < e.seq) := by
        rw [logBytes, hread, h.numbered.intact.file, copy_lines_render]
        rfl
      have hlogged : logged fs = (logged s.fs).filter fun e => s.process.keep_above < e.seq := by
        rw [logged_eq, hbytes, eventsIn_render]
      rw [hresult]
      refine ⟨h.numbered.replaced hentries (hbytes.trans (hlogged ▸ rfl)) ?_, fun e he habove => ?_⟩
      · rw [hlogged]
        exact h.numbered.filter_suffix _
      · rw [hlogged]
        exact List.mem_filter.mpr ⟨he, decide_eq_true habove⟩
  obtain ⟨hnumbered, habove⟩ := hnumbered
  refine ⟨⟨hnumbered, fun e he => ?_⟩, habove⟩
  simp only [step, Option.some.injEq] at hstep
  subst hstep
  obtain ⟨hacked, hkept⟩ := List.mem_filter.mp he
  exact (of_decide_eq_true hkept).elim id (habove e (h.kept e hacked))

theorem step_sound {s s' : Session} {a : Action} (h : Sound s) (hclean : Clean s a) (hstep : step s a = some s') :
    Sound s' := by
  cases a with
  | append c fault =>
    cases fault with
    | none => exact h.append hstep
    | some fault => exact step_failing hclean hstep ▸ h
  | set_ack through fault =>
    simp only [step, Option.some.injEq] at hstep
    obtain ⟨fs, ack_through, hset, hentries, hread⟩ := set_ack_unmoved s.fs s.process through fault
    rw [hset] at hstep
    subst hstep
    obtain ⟨hnumbered, hlogged⟩ := h.numbered.unmoved hentries hread ack_through
    exact ⟨hnumbered, fun e he => hlogged.symm ▸ h.kept e he⟩
  | compact fault => exact (h.compact hclean hstep).1
  | reopen =>
    simp only [step, Option.some.injEq] at hstep
    subst hstep
    obtain ⟨hnumbered, hlogged⟩ := h.numbered.reopen
    exact ⟨hnumbered, fun e he => hlogged.symm ▸ h.kept e he⟩

/-- Every acknowledged event is found by an opening, and no number is in the log twice. -/
structure Traceless (s : Session) : Prop where
  recovered : ∀ e ∈ s.acknowledged, Recovered s.fs e
  distinct : ((logged s.fs).map Event.seq).Nodup

theorem Sound.traceless {s : Session} (h : Sound s) : Traceless s where
  recovered e he := h.numbered.recovered (h.kept e he)
  distinct := h.numbered.nodup

/-- Failing appends that leave no byte can be left out of a run. -/
theorem run_without_failing {s s' : Session} {actions : List Action} (hrun : machine.Run step s actions s')
    (hclean : machine.Along step Clean s actions) :
    machine.Run step s (actions.filter fun a => !a.failing) s' := by
  induction actions generalizing s with
  | nil => exact hrun
  | cons a actions ih =>
    obtain ⟨mid, hstep, hrest⟩ := machine.run_cons.mp hrun
    have hlater := ih hrest (hclean.2 mid hstep)
    by_cases hfailing : a.failing = true
    · cases a with
      | append c fault =>
        obtain ⟨fault, rfl⟩ := Option.isSome_iff_exists.mp hfailing
        rw [List.filter_cons_of_neg (by simp [Action.failing])]
        exact step_failing hclean.1 hstep ▸ hlater
      | set_ack => cases hfailing
      | compact => cases hfailing
      | reopen => cases hfailing
    · rw [List.filter_cons_of_pos (by simpa using hfailing)]
      exact machine.run_cons.mpr ⟨mid, hstep, hlater⟩

/-- In a run whose failing appends leave no byte, the store stands where it would stand
without them, every acknowledged event is recovered under its number and no two logged
events share one. -/
theorem failed_append_traceless {actions : List Action} {s : Session} (hrun : machine.Run step .init actions s)
    (hclean : machine.Along step Clean .init actions) :
    machine.Run step .init (actions.filter fun a => !a.failing) s ∧ Traceless s :=
  ⟨run_without_failing hrun hclean,
    (hrun.invariant_along Sound (fun _ _ _ h hclean hstep => step_sound h hclean hstep) hclean .init).traceless⟩

/-- A full disk between two appends. -/
def fullDiskRun : List Action :=
  [.append .sample none, .append { Call.sample with ts := [] } (some (.write 0)),
    .append { Call.sample with ts := [] } none, .reopen]

theorem failed_append_traceless_full_disk :
    ∃ s, machine.Run step .init fullDiskRun s ∧ s.acknowledged.length = 2 ∧ Traceless s := by
  refine ⟨_, rfl, rfl, (failed_append_traceless (show machine.Run step .init fullDiskRun _ from rfl) ?_).2⟩
  refine .cons ?_ rfl (.cons ?_ rfl (.cons ?_ rfl (.cons trivial rfl trivial)))
  · exact fun _ hfault => absurd hfault (by simp)
  · exact fun _ _ => rfl
  · exact fun _ hfault => absurd hfault (by simp)

/-- A line that was written in full before `sync_data` failed stays, and the next append
writes another one under its number. -/
theorem failed_sync_duplicates_seq : ∃ actions s, machine.Run step .init actions s ∧ ¬ Traceless s := by
  have hrun : ([.append .sample (some .sync), .append .sample none].foldlM step .init).any (fun s =>
      ¬ ((logged s.fs).map Event.seq).Nodup) = true := by
    decide +kernel
  obtain ⟨s, hrun, htwice⟩ := machine.exists_run step hrun
  exact ⟨_, s, hrun, fun h => of_decide_eq_true htwice h.distinct⟩

/-- A failed compaction has lost no event above its bound, the append handle refers to the
file that is named `events.log`, and what is acknowledged later is found in it. -/
structure StaysIntact (s s' : Session) : Prop where
  above : ∀ e ∈ logged s.fs, s.process.keep_above < e.seq → e ∈ logged s'.fs
  handle : s'.fs.entries events_path = some s'.process.log
  later : ∀ actions s'', machine.Run step s' actions s'' → machine.Along step Clean s' actions →
    ∀ e ∈ s''.acknowledged, e ∈ logged s''.fs ∧ Recovered s''.fs e

/-- Where reopening fails, the name refers to the new file and the handle to the old one. -/
theorem Sound.detached {s s' : Session} (h : Sound s)
    (hfails : (s.process.maybe_compact s.fs (some .reopen)).2.2 = false)
    (hstep : step s (.compact (some .reopen)) = some s') : s'.fs.entries events_path ≠ some s'.process.log := by
  simp only [step, Option.some.injEq] at hstep
  obtain ⟨_, _, ⟨hok, _⟩ | ⟨_, _, hfault, hother⟩⟩ | ⟨_, fs, tmp, _, hentries, hnew, _, ⟨_, hresult⟩ | ⟨hnone, _⟩⟩ :=
    maybe_compact_cases s.fs s.process (some .reopen)
  · rw [hfails] at hok
    cases hok
  · exact absurd (Option.some.inj hfault).symm hother
  · rw [hresult] at hstep
    rw [← hstep]
    exact fun hhandle => hnew (h.numbered.intact.handle.trans (hhandle.symm.trans hentries))
  · cases hnone

/-- A compaction that fails leaves the store intact exactly when it does not fail at
reopening the log. -/
theorem failed_compaction_intact_iff {actions : List Action} {s s' : Session} {fault : CompactFault}
    (hrun : machine.Run step .init actions s) (hclean : machine.Along step Clean .init actions)
    (hfails : (s.process.maybe_compact s.fs (some fault)).2.2 = false)
    (hstep : step s (.compact (some fault)) = some s') : StaysIntact s s' ↔ fault ≠ .reopen := by
  have hsound := hrun.invariant_along Sound (fun _ _ _ h hclean hstep => step_sound h hclean hstep) hclean .init
  constructor
  · rintro hintact rfl
    exact hsound.detached hfails hstep hintact.handle
  · intro hfault
    have hfault : some fault ≠ some .reopen := fun heq => hfault (Option.some.inj heq)
    obtain ⟨hsound', habove⟩ := hsound.compact hfault hstep
    refine ⟨habove, hsound'.numbered.intact.handle, fun actions s'' hrun hclean e he => ?_⟩
    have hlater := hrun.invariant_along Sound (fun _ _ _ h hclean hstep => step_sound h hclean hstep) hclean hsound'
    exact ⟨hlater.kept e he, hlater.numbered.recovered (hlater.kept e he)⟩

/-- The action without an I/O error, if it is one of the store's own. -/
def faultless : lifecycle.Action → Option Action
  | .append c => some (.append c none)
  | .poll _ => none
  | .set_ack through => some (.set_ack through none)
  | .compact => some (.compact none)
  | .reopen => some .reopen

/-- A step without I/O errors is a clean one of this machine, unless it is a poll. -/
theorem step_faultless {a : lifecycle.Action} {t t' : lifecycle.Session} (hstep : lifecycle.step t a = some t')
    {s : Session} (hfs : s.fs = t.fs) (hprocess : s.process = t.process) :
    (faultless a = none ∧ t'.fs = t.fs ∧ t'.process = t.process) ∨
      ∃ b s', faultless a = some b ∧ Clean s b ∧ step s b = some s' ∧ s'.fs = t'.fs ∧ s'.process = t'.process := by
  obtain ⟨fs, process, acknowledged⟩ := s
  obtain rfl : fs = t.fs := hfs
  obtain rfl : process = t.process := hprocess
  cases a with
  | append c =>
    have hclean : Clean ⟨t.fs, t.process, acknowledged⟩ (.append c none) := fun _ hfault => absurd hfault (by simp)
    simp only [lifecycle.step] at hstep
    split at hstep
    · rename_i fs store seq hcall
      cases hstep
      refine Or.inr ⟨_, ⟨fs, store, acknowledged ++ [{ t.process.event c with seq }]⟩, rfl, hclean, ?_, rfl, rfl⟩
      simp only [step, hcall]
    · rename_i fs store hcall
      cases hstep
      refine Or.inr ⟨_, ⟨fs, store, acknowledged⟩, rfl, hclean, ?_, rfl, rfl⟩
      simp only [step, hcall]
    · cases hstep
  | poll max =>
    simp only [lifecycle.step] at hstep
    split at hstep
    · cases hstep
    · cases hstep
      exact Or.inl ⟨rfl, rfl, rfl⟩
  | set_ack through =>
    simp only [lifecycle.step, Option.some.injEq] at hstep
    subst hstep
    exact Or.inr ⟨_, _, rfl, trivial, by simp only [step]; rfl, rfl, rfl⟩
  | compact =>
    simp only [lifecycle.step] at hstep
    split at hstep
    · rename_i fs store hcompact
      cases hstep
      refine Or.inr ⟨_, ⟨fs, store, acknowledged.filter fun e => e ∈ logged fs ∨ t.process.keep_above < e.seq⟩, rfl,
        by simp [Clean], ?_, rfl, rfl⟩
      simp only [step, hcompact]
    · cases hstep
  | reopen =>
    simp only [lifecycle.step, Option.some.injEq] at hstep
    subst hstep
    exact Or.inr ⟨_, _, rfl, trivial, by simp only [step]; rfl, rfl, rfl⟩

/-- A run without I/O errors is one of this machine, and a clean one. -/
theorem run_faultless {actions : List lifecycle.Action} {t t' : lifecycle.Session}
    (hrun : machine.Run lifecycle.step t actions t') {s : Session} (hfs : s.fs = t.fs)
    (hprocess : s.process = t.process) :
    ∃ s', machine.Run step s (actions.filterMap faultless) s' ∧
      machine.Along step Clean s (actions.filterMap faultless) ∧ s'.fs = t'.fs ∧ s'.process = t'.process := by
  induction actions generalizing s t with
  | nil =>
    obtain rfl := machine.run_nil.mp hrun
    exact ⟨s, rfl, trivial, hfs, hprocess⟩
  | cons a actions ih =>
    obtain ⟨mid, hstep, hrest⟩ := machine.run_cons.mp hrun
    obtain ⟨hnone, hfs', hprocess'⟩ | ⟨b, next, hb, hclean, hnext, hfs', hprocess'⟩ := step_faultless hstep hfs hprocess
    · rw [List.filterMap_cons_none hnone]
      exact ih hrest (hfs.trans hfs'.symm) (hprocess.trans hprocess'.symm)
    · obtain ⟨s', hrun', hclean', hsame⟩ := ih hrest hfs' hprocess'
      rw [List.filterMap_cons_some hb]
      exact ⟨s', machine.run_cons.mpr ⟨next, hnext, hrun'⟩, .cons hclean hnext hclean', hsame⟩

/-- A log of the threshold size in which a compaction has events to drop. -/
theorem exists_failing (fault : CompactFault) :
    ∃ actions s s', machine.Run step .init actions s ∧ machine.Along step Clean .init actions ∧
      (s.process.maybe_compact s.fs (some fault)).2.2 = false ∧ step s (.compact (some fault)) = some s' := by
  obtain ⟨calls, through, t, front, hrun, _, hordered, hlarge, _, _, hmem, hbelow⟩ := lifecycle.exists_compactable
  obtain ⟨s, hrun, hclean, hfs, hprocess⟩ := run_faultless hrun (show Session.init.fs = _ from rfl) rfl
  refine ⟨_, s, _, hrun, hclean, ?_, rfl⟩
  rw [hfs, hprocess]
  have hdropped : (copy_lines t.process.keep_above (readLines (logBytes t.fs)) [] 0).2 ≠ 0 := by
    rw [hordered.file, copy_lines_render]
    exact (List.length_pos_of_mem (List.mem_filter.mpr ⟨hmem, decide_eq_true hbelow⟩)).ne'
  obtain ⟨_, _, ⟨_, hsmall | hnone⟩ | ⟨hfails, _⟩⟩ | ⟨_, _, _, _, _, _, _, ⟨_, hresult⟩ | ⟨hfault, _⟩⟩ :=
    maybe_compact_cases t.fs t.process (some fault)
  · exact absurd hlarge (not_le.mpr hsmall)
  · exact absurd hnone hdropped
  · exact hfails
  · rw [hresult]
  · cases hfault

theorem failed_compaction_intact_iff_rename :
    ∃ actions s s', machine.Run step .init actions s ∧ step s (.compact (some .rename)) = some s' ∧
      StaysIntact s s' := by
  obtain ⟨actions, s, s', hrun, hclean, hfails, hstep⟩ := exists_failing .rename
  exact ⟨actions, s, s', hrun, hstep, (failed_compaction_intact_iff hrun hclean hfails hstep).mpr (by decide)⟩

/-- After a compaction that renamed the new log into place and failed to open it, the
handle refers to the old one. -/
theorem failed_reopen_detaches :
    ∃ actions s s', machine.Run step .init actions s ∧
      (s.process.maybe_compact s.fs (some .reopen)).2.2 = false ∧ step s (.compact (some .reopen)) = some s' ∧
      ¬ StaysIntact s s' := by
  obtain ⟨actions, s, s', hrun, hclean, hfails, hstep⟩ := exists_failing .reopen
  have hsound := hrun.invariant_along Sound (fun _ _ _ h hclean hstep => step_sound h hclean hstep) hclean .init
  exact ⟨actions, s, s', hrun, hfails, hstep, fun hintact => hsound.detached hfails hstep hintact.handle⟩

end faults

end yt_websub.store
