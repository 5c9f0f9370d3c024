import YtWebsub.Server.Reconcile

open rust rust.utf8 rust.text rust.num rust.map
open yt_websub.subs yt_websub.renew yt_websub.api

namespace yt_websub.server

/-- A tick that follows an incomplete reconcile goes on to reconcile again. -/
def Retries (cfg : Config) (s : Server) : Action → Prop
  | .renewal_sample => ∀ last_sig, s.renewal = .sleeping last_sig → ∃ r, s.last_read = some r ∧
      (r.complete = false → ∃ s' sig, step cfg s .renewal_sample = some s' ∧ s'.renewal = .blocked sig)
  | _ => True

/-- A tick that finds the signature of the previous sample comes after a reconcile that
could read the file and for which every entry resolved. -/
def Settled (s : Server) : Action → Prop
  | .renewal_sample => ∀ last_sig r, s.renewal = .sleeping last_sig → s.last_read = some r →
      channels_sig s.file ≠ last_sig ∨ ∃ content, r.content.bind decode = some content ∧
        none ∉ resolutions r.fetch 0 (active_lines content) r.cache
  | _ => True

/-- Once the startup reconcile has read the file, there is a most recent reconcile. -/
def Server.Informed (s : Server) : Prop :=
  s.renewal = .starting ∨ (s.renewal = .startup ∧ ∃ holder, s.reconcile_lock = some (holder, .reading)) ∨
    ∃ r, s.last_read = some r

theorem step_starting {cfg : Config} {s s' : Server} {a : Action} (hstarting : s.renewal = .starting)
    (hstep : step cfg s a = some s') :
    s'.renewal = .starting ∨ (s'.renewal = .startup ∧ ∃ holder, s'.reconcile_lock = some (holder, .reading)) := by
  by_cases hrenews : a.renews = false
  · exact Or.inl ((step_renewal hrenews hstep).trans hstarting)
  cases a <;> simp only [Action.renews, not_true_eq_false] at hrenews
  case renewal_lock =>
    simp only [step, hstarting] at hstep
    split at hstep <;> cases hstep
    · exact Or.inr ⟨rfl, .renewal, rfl⟩
    · contradiction
  case reconcile_finish order =>
    simp only [step] at hstep
    split at hstep
    · rename_i holder hheld
      obtain ⟨_, _, rfl⟩ := save_spec hstep
      left
      cases holder <;> simp [Server.release, hstarting]
    · cases hstep
  case restart cache =>
    cases hstep
    exact Or.inl rfl
  all_goals simp [step, hstarting] at hstep

/-- While the startup reconcile is about to read, only a restart moves the renewal thread. -/
theorem step_startup {cfg : Config} {s s' : Server} {a : Action} (hstartup : s.renewal = .startup) {holder : Holder}
    (hheld : s.reconcile_lock = some (holder, .reading)) (hstep : step cfg s a = some s') :
    s'.renewal = .starting ∨ s'.renewal = .startup := by
  by_cases hrenews : a.renews = false
  · exact Or.inr ((step_renewal hrenews hstep).trans hstartup)
  cases a <;> simp only [Action.renews, not_true_eq_false] at hrenews
  case restart cache =>
    cases hstep
    exact Or.inl rfl
  all_goals simp [step, hstartup, hheld] at hstep

theorem Progress.informed {cfg : Config} {s s' : Server} {a : Action} (h : Progress s a s')
    (hstep : step cfg s a = some s') (hs : s.Informed) : s'.Informed := by
  obtain hstarting | ⟨hstartup, holder, hheld⟩ | ⟨r, hr⟩ := hs
  · exact (step_starting hstarting hstep).imp_right Or.inl
  · obtain hstarting | hstartup' := step_startup hstartup hheld hstep
    · exact Or.inl hstarting
    right
    cases h with
    | other lock channels last_read => exact Or.inl ⟨hstartup', holder, lock.trans hheld⟩
    | read holder readable fetch content action file held lock channels last_read same =>
      exact Or.inr ⟨_, last_read⟩
    | restart action lock last_read renewal => exact absurd (renewal.symm.trans hstartup') (by decide)
    | taken holder free lock channels last_read => simp [hheld] at free
    | diff holder desired complete removes action held removed lock channels last_read => simp [hheld] at held
    | insert holder cid token secret now adds removes held lock channels last_read => simp [hheld] at held
    | answer holder sub adds removes held lock channels last_read => simp [hheld] at held
    | unsubscribe holder sub removes held lock channels last_read => simp [hheld] at held
    | remove holder sub removes action held lock channels last_read => simp [hheld] at held
    | finish holder held lock channels last_read => simp [hheld] at held
  · have hkept : s'.last_read = s.last_read → s'.Informed := fun hlast => Or.inr (Or.inr ⟨r, hlast.trans hr⟩)
    cases h with
    | read holder readable fetch content action file held lock channels last_read same =>
      exact Or.inr (Or.inr ⟨_, last_read⟩)
    | restart action lock last_read renewal => exact Or.inl renewal
    | other lock channels last_read => exact hkept last_read
    | taken holder free lock channels last_read => exact hkept last_read
    | diff holder desired complete removes action held removed lock channels last_read => exact hkept last_read
    | insert holder cid token secret now adds removes held lock channels last_read => exact hkept last_read
    | answer holder sub adds removes held lock channels last_read => exact hkept last_read
    | unsubscribe holder sub removes held lock channels last_read => exact hkept last_read
    | remove holder sub removes action held lock channels last_read => exact hkept last_read
    | finish holder held lock channels last_read => exact hkept last_read

/-- A sleeping loop has reconciled before, and wakes to reconcile again exactly when the
signature has changed. -/
theorem retries_iff_settled {cfg : Config} {s : Server} (hinformed : s.Informed) (a : Action) :
    Retries cfg s a ↔ Settled s a := by
  cases a with
  | renewal_sample =>
    have hstep : ∀ {last_sig : U64 × Nat}, s.renewal = .sleeping last_sig →
        ((∃ s' sig, step cfg s .renewal_sample = some s' ∧ s'.renewal = .blocked sig) ↔
          channels_sig s.file ≠ last_sig) := by
      intro last_sig hsleeping
      simp only [step, hsleeping, Option.some.injEq]
      constructor
      · rintro ⟨_, sig, rfl, hblocked⟩
        by_contra hsig
        simp [hsig] at hblocked
      · exact fun hsig => ⟨_, channels_sig s.file, rfl, if_pos hsig⟩
    constructor
    · intro hretries last_sig r hsleeping hr
      obtain ⟨r', hr', hblocked⟩ := hretries last_sig hsleeping
      obtain rfl := Option.some.inj (hr.symm.trans hr')
      by_cases hcomplete : r.complete = true
      · exact Or.inr (Read.complete_iff.mp hcomplete)
      · exact Or.inl ((hstep hsleeping).mp (hblocked (Bool.eq_false_iff.mpr hcomplete)))
    · intro hsettled last_sig hsleeping
      obtain hstarting | ⟨hstartup, _⟩ | ⟨r, hr⟩ := hinformed
      · exact absurd (hsleeping.symm.trans hstarting) (by simp)
      · exact absurd (hsleeping.symm.trans hstartup) (by simp)
      · refine ⟨r, hr, fun hincomplete => (hstep hsleeping).mpr ?_⟩
        refine (hsettled last_sig r hsleeping hr).resolve_right fun hresolved => ?_
        rw [Read.complete_iff.mpr hresolved] at hincomplete
        cases hincomplete
  | _ => exact Iff.rfl

/-- Incomplete reconciles are retried in exactly those runs in which every tick that finds
the file unchanged comes after a reconcile that found all of it. -/
theorem incomplete_retried_iff {cfg : Config} {clock : U64} {file : Option ChannelsFile}
    {cache : HashMap Text Text} (actions : List Action) :
    machine.Along (step cfg) (Retries cfg) (.init clock file cache) actions ↔
      machine.Along (step cfg) Settled (.init clock file cache) actions := by
  refine machine.along_congr (fun s => Sound clock s ∧ s.Informed) (fun s a s' hs hstep => ?_)
    (fun s a hs => retries_iff_settled hs.2 a) ⟨.init clock file cache, Or.inl rfl⟩
  exact ⟨step_sound hs.1 hstep, (step_progress hs.1.memory.keyed hstep).informed hstep hs.2⟩

theorem incomplete_retried_iff_startup :
    machine.Along (step ⟨864000⟩) (Retries ⟨864000⟩) (.init 1 (some oneChannelFile) ∅)
      (startupActions ++ [.renewal_sample, .renewal_sample]) := by
  refine (incomplete_retried_iff _).mpr ?_
  refine .cons trivial rfl (.cons trivial rfl (.cons trivial rfl (.cons trivial rfl ?_)))
  refine .cons trivial rfl (.cons trivial rfl (.cons (fun _ _ hsleeping _ => nomatch hsleeping) rfl ?_))
  refine .cons (fun _ _ _ hread => Or.inr ?_) rfl trivial
  cases hread
  exact ⟨_, rfl, by decide +kernel⟩

/-- An entry that no page resolves. -/
def unresolvedFile : ChannelsFile where
  content := encode "@nobody\n".toList
  mtime := 1

/-- The startup, up to the sleep before the first tick. -/
def unresolvedActions : List Action :=
  [.renewal_lock, .reconcile_read true (fun _ _ => none), .reconcile_diff [], .reconcile_finish [], .renewal_sample]

/-- The startup reconcile could not resolve the entry, and the first tick does not try again. -/
theorem incomplete_not_retried :
    ∃ s, machine.Run (step ⟨864000⟩) (.init 1 (some unresolvedFile) ∅) unresolvedActions s ∧
      (∃ r, s.last_read = some r ∧ r.complete = false) ∧
      (∃ s', step ⟨864000⟩ s .renewal_sample = some s' ∧ s'.renewal = .waking (channels_sig s.file)) ∧
      ¬ machine.Along (step ⟨864000⟩) (Retries ⟨864000⟩) (.init 1 (some unresolvedFile) ∅)
        (unresolvedActions ++ [.renewal_sample]) := by
  obtain ⟨s, hrun, hs⟩ := machine.exists_run (step ⟨864000⟩)
    (show (unresolvedActions.foldlM (step ⟨864000⟩) (.init 1 (some unresolvedFile) ∅)).any
      (fun s => s.renewal = .sleeping (channels_sig s.file) ∧ s.last_read.any (fun r => !r.complete)) = true by
      decide +kernel)
  rw [decide_eq_true_eq, Option.any_eq_true] at hs
  obtain ⟨hsleeping, r, hr, hcomplete⟩ := hs
  rw [Bool.not_eq_true'] at hcomplete
  have hwaking : ∃ s', step ⟨864000⟩ s .renewal_sample = some s' ∧ s'.renewal = .waking (channels_sig s.file) := by
    simp [step, hsleeping]
  refine ⟨s, hrun, ⟨r, hr, hcomplete⟩, hwaking, fun halong => ?_⟩
  obtain ⟨r', hr', hretried⟩ := (halong.append hrun).1 _ hsleeping
  obtain rfl := Option.some.inj (hr.symm.trans hr')
  obtain ⟨s', sig, hstep, hblocked⟩ := hretried hcomplete
  obtain ⟨s'', hstep', hwaking⟩ := hwaking
  obtain rfl := Option.some.inj (hstep.symm.trans hstep')
  rw [hwaking] at hblocked
  cases hblocked

end yt_websub.server
