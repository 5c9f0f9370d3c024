import YtWebsub.Server.Soundness

open rust rust.utf8 rust.text rust.num rust.map
open yt_websub.subs yt_websub.renew yt_websub.api

namespace yt_websub.server

variable {epoch : U64}

/-- The channels that the reconcile wants. -/
def Read.desired (r : Read) : List Text :=
  (desired_set r.content r.fetch r.cache).1

def Read.complete (r : Read) : Bool :=
  (desired_set r.content r.fetch r.cache).2.1

/-- The file could be read, and every entry of it resolved to the channel it stands for. -/
def Read.Resolved (ident : Text → Text) (r : Read) : Prop :=
  ∃ content, r.content.bind decode = some content ∧
    resolutions r.fetch 0 (active_lines content) r.cache = (active_lines content).map fun line => some (ident line)

instance (ident : Text → Text) (r : Read) : Decidable (r.Resolved ident) :=
  match hcontent : r.content.bind decode with
  | none => isFalse (by simp [Read.Resolved, hcontent])
  | some content =>
    decidable_of_iff (resolutions r.fetch 0 (active_lines content) r.cache =
      (active_lines content).map fun line => some (ident line)) (by simp [Read.Resolved, hcontent])

theorem Read.mem_desired {r : Read} {content : Text} (hcontent : r.content.bind decode = some content) {id : Text} :
    id ∈ r.desired ↔ some id ∈ resolutions r.fetch 0 (active_lines content) r.cache := by
  rw [Read.desired, desired_set, hcontent]
  exact mem_resolve_lines.trans (by simp)

/-- A reconcile is complete when it could read the file and every entry resolved. -/
theorem Read.complete_iff {r : Read} :
    r.complete = true ↔ ∃ content, r.content.bind decode = some content ∧
      none ∉ resolutions r.fetch 0 (active_lines content) r.cache := by
  rw [Read.complete, desired_set]
  cases hcontent : r.content.bind decode with
  | none => simp
  | some content => exact resolve_lines_complete.trans (by simp)

theorem Read.Resolved.complete {ident : Text → Text} {r : Read} (h : r.Resolved ident) : r.complete = true := by
  obtain ⟨content, hcontent, hresolved⟩ := h
  exact Read.complete_iff.mpr ⟨content, hcontent, by simp [hresolved]⟩

/-- The registry, with the changes that the reconcile in progress has still to make, is
what the most recent one found to be wanted. -/
def Server.Agrees (s : Server) (r : Read) : Prop :=
  match s.reconcile_lock with
  | none => ∀ c, c ∈ s.reg.subs ↔ c ∈ r.desired
  | some (_, .reading) => True
  | some (_, .diffing desired complete) => desired = r.desired ∧ complete = r.complete
  | some (_, .pausing to_add to_remove) | some (_, .subscribing _ to_add to_remove) =>
    ∀ c, ((c ∈ s.reg.subs ∨ c ∈ to_add) ∧ ∀ sub ∈ to_remove, sub.channel_id ≠ c) ↔ c ∈ r.desired
  | some (_, .unsubscribing sub to_remove) =>
    ∀ c, (c ∈ s.reg.subs ∧ ∀ t ∈ sub :: to_remove, t.channel_id ≠ c) ↔ c ∈ r.desired

/-- The diff of a complete reconcile leads to what it wants. -/
theorem diff_agrees {reg : Registry} (hkeyed : reg.Keyed) {desired : List Text} {removes : List Sub}
    (hremoves : removes.Perm (to_remove reg desired true)) (c : Text) :
    ((c ∈ reg.subs ∨ c ∈ to_add reg desired) ∧ ∀ sub ∈ removes, sub.channel_id ≠ c) ↔ c ∈ desired := by
  have hmem : ∀ sub, sub ∈ removes ↔ sub ∈ values reg.subs ∧ sub.channel_id ∉ desired := fun sub => by
    rw [hremoves.mem_iff, to_remove, if_pos rfl, List.mem_filter, decide_eq_true_eq]
  rw [to_add, List.mem_filter, decide_eq_true_eq]
  constructor
  · rintro ⟨hreg | ⟨hdesired, _⟩, hkept⟩
    · by_contra hunwanted
      obtain ⟨sub, hsub⟩ := Option.isSome_iff_exists.mp (AList.lookup_isSome.mpr hreg)
      have hchannel := hkeyed c sub hsub
      exact hkept sub ((hmem sub).mpr ⟨mem_values.mpr ⟨c, hsub⟩, hchannel ▸ hunwanted⟩) hchannel
    · exact hdesired
  · intro hdesired
    refine ⟨(em (c ∈ reg.subs)).imp_right fun hnew => ⟨hdesired, hnew⟩, ?_⟩
    rintro sub hsub rfl
    exact ((hmem sub).mp hsub).2 hdesired

theorem Progress.agrees {s s' : Server} {a : Action} (h : Progress s a s') (hkeyed : s.reg.Keyed)
    (hs : ∀ r, s.last_read = some r → r.complete = true → s.Agrees r) :
    ∀ r, s'.last_read = some r → r.complete = true → s'.Agrees r := by
  intro r hr hcomplete
  have hagrees : s'.last_read = s.last_read → s.Agrees r := fun hlast => hs r (hlast ▸ hr) hcomplete
  unfold Server.Agrees at hagrees ⊢
  cases h with
  | other lock channels last_read =>
    have hold := hagrees last_read
    rw [lock]
    simp only [channels]
    exact hold
  | taken holder free lock channels last_read =>
    rw [lock]
    trivial
  | read holder readable fetch content action file held lock channels last_read same =>
    rw [last_read, Option.some.injEq] at hr
    rw [lock, ← hr]
    exact ⟨rfl, rfl⟩
  | diff holder desired complete removes action held removed lock channels last_read =>
    have hold := hagrees last_read
    rw [held] at hold
    obtain ⟨rfl, rfl⟩ := hold
    rw [hcomplete] at removed
    rw [lock, channels]
    exact diff_agrees hkeyed removed
  | insert holder cid token secret now adds removes held lock channels last_read =>
    have hold := hagrees last_read
    rw [held] at hold
    rw [lock]
    intro c
    rw [← hold c, channels, List.mem_cons, or_assoc, or_left_comm]
  | answer holder sub adds removes held lock channels last_read =>
    have hold := hagrees last_read
    rw [held] at hold
    rw [lock]
    simp only [channels]
    exact hold
  | unsubscribe holder sub removes held lock channels last_read =>
    have hold := hagrees last_read
    rw [held] at hold
    rw [lock, channels]
    simpa using hold
  | remove holder sub removes action held lock channels last_read =>
    have hold := hagrees last_read
    rw [held] at hold
    rw [lock]
    intro c
    rw [← hold c, channels, List.forall_mem_cons]
    simp only [List.not_mem_nil, or_false]
    tauto
  | finish holder held lock channels last_read =>
    have hold := hagrees last_read
    rw [held] at hold
    rw [lock, channels]
    simpa using hold
  | restart action lock last_read renewal =>
    rw [last_read] at hr
    cases hr

/-- The local variable of `run`, once it is set. -/
def Renewal.last_sig : Renewal → Option (U64 × Nat)
  | .starting | .startup | .sampling => none
  | .sleeping last_sig | .blocked last_sig | .reconciling last_sig | .waking last_sig | .expiring last_sig _
  | .selecting last_sig _ | .renewing last_sig _ | .sending last_sig _ _ => some last_sig

def Renewal.waiting : Renewal → Bool
  | .blocked _ => true
  | _ => false

/-- The most recent reconcile read what the file contains, or one is about to. -/
def Server.UpToDate (s : Server) : Prop :=
  (∃ r, s.last_read = some r ∧ r.content = s.file.map ChannelsFile.content) ∨
    ∃ holder, s.reconcile_lock = some (holder, .reading)

instance (s : Server) : Decidable s.UpToDate :=
  haveI : Decidable (∃ r, s.last_read = some r ∧ r.content = s.file.map ChannelsFile.content) :=
    match hread : s.last_read with
    | none => isFalse (by simp)
    | some r => decidable_of_iff (r.content = s.file.map ChannelsFile.content) (by simp)
  haveI : Decidable (∃ holder, s.reconcile_lock = some (holder, .reading)) :=
    match hlock : s.reconcile_lock with
    | some (holder, .reading) => isTrue ⟨holder, rfl⟩
    | none => isFalse (by simp)
    | some (_, .diffing _ _) | some (_, .pausing _ _) | some (_, .subscribing _ _ _) | some (_, .unsubscribing _ _) =>
      isFalse (by simp)
  inferInstanceAs (Decidable (_ ∨ _))

/-- A reconcile that reads the file finds that every entry resolves. -/
def Resolves (ident : Text → Text) (s : Server) : Action → Prop
  | .reconcile_read readable fetch =>
    Read.Resolved ident
      { content := if readable then s.file.map ChannelsFile.content else none, cache := s.resolve_cache, fetch }
  | _ => True

instance (ident : Text → Text) (s : Server) (a : Action) : Decidable (Resolves ident s a) := by
  unfold Resolves
  split <;> infer_instance

/-- The loop can tell the file from the one that it sampled last. -/
def Server.Distinct (s : Server) (file : ChannelsFile) : Prop :=
  s.renewal.last_sig ≠ some (channels_sig (some file))

/-- No write brings back the signature that the loop sampled last, and when the loop takes
its first sample no change has been missed. -/
def Noticeable (s : Server) : Action → Prop
  | .edit file => s.Distinct file
  | .post_write i mtime =>
    match s.posts[i]? with
    | some (.rendered content) => s.Distinct { content, mtime }
    | _ => True
  | .renewal_sample => s.renewal = .sampling → s.UpToDate
  | _ => True

instance (s : Server) (file : ChannelsFile) : Decidable (s.Distinct file) :=
  inferInstanceAs (Decidable (¬ _))

instance (s : Server) (a : Action) : Decidable (Noticeable s a) := by
  unfold Noticeable
  split
  · infer_instance
  · split <;> infer_instance
  · infer_instance
  · infer_instance

/-- What a step does to the renewal loop's view of the file, when changes are noticeable. -/
inductive Turn (s s' : Server) : Prop where
  | still (last_sig : s'.renewal.last_sig = s.renewal.last_sig) (waiting : s'.renewal.waiting = s.renewal.waiting)
      (file : s'.file = s.file) (tick : s'.tick = s.tick)
  | write (renewal : s'.renewal = s.renewal) (tick : s'.tick = .none)
      (distinct : s.renewal.last_sig ≠ some (channels_sig s'.file))
  | first (renewal : s'.renewal = .sleeping (channels_sig s.file)) (current : s.UpToDate) (file : s'.file = s.file)
      (tick : s'.tick = s.tick)
  | sample (last_sig : U64 × Nat) (sleeping : s.renewal = .sleeping last_sig)
      (renewal : s'.renewal =
        if channels_sig s.file ≠ last_sig then .blocked (channels_sig s.file) else .waking last_sig)
      (file : s'.file = s.file) (tick : s'.tick = if s.tick = .none then .started else s.tick)
  | lock (last_sig : U64 × Nat) (blocked : s.renewal = .blocked last_sig) (renewal : s'.renewal = .reconciling last_sig)
      (reading : s'.reconcile_lock = some (.renewal, .reading)) (file : s'.file = s.file) (tick : s'.tick = s.tick)
  | sleep (last_sig : U64 × Nat) (renewing : s.renewal = .renewing last_sig [])
      (renewal : s'.renewal = .sleeping last_sig)
      (file : s'.file = s.file) (tick : s'.tick = if s.tick = .started then .completed else s.tick)
  | restart (renewal : s'.renewal = .starting) (tick : s'.tick = .none)

theorem step_turn {cfg : Config} {s s' : Server} {a : Action} (ha : Noticeable s a) (hstep : step cfg s a = some s') :
    Turn s s' := by
  have hsame : ∀ {t : Server}, t.renewal = s.renewal → t.file = s.file → t.tick = s.tick → Turn s t :=
    fun hrenewal hfile htick => .still (by rw [hrenewal]) (by rw [hrenewal]) hfile htick
  have hmerged : ∀ {t u : Server} {sub : Sub} {order : List Sub}, t.merge sub order = some u →
      u.renewal = t.renewal ∧ u.file = t.file ∧ u.tick = t.tick := by
    intro t u sub order hmerge
    obtain rfl | ⟨_, _, _, _, _, rfl⟩ := merge_spec hmerge <;> exact ⟨rfl, rfl, rfl⟩
  cases a with
  | edit file =>
    cases hstep
    exact .write rfl rfl ha
  | post_write i mtime =>
    simp only [step] at hstep
    split at hstep
    · rename_i content hpost
      cases hstep
      rw [Noticeable, hpost] at ha
      exact .write rfl rfl ha
    · cases hstep
  | renewal_lock =>
    simp only [step] at hstep
    split at hstep
    · rename_i hrenewal hfree
      cases hstep
      exact .still (by rw [hrenewal]; rfl) (by rw [hrenewal]; rfl) rfl rfl
    · rename_i last_sig hrenewal hfree
      cases hstep
      exact .lock last_sig hrenewal rfl rfl rfl rfl
    · cases hstep
  | reconcile_answer res now drawn order =>
    simp only [step] at hstep
    split at hstep
    · split at hstep
      · cases hstep
        exact hsame rfl rfl rfl
      · split at hstep
        · obtain ⟨after, _, hmerge⟩ := Option.bind_eq_some_iff.mp hstep
          obtain ⟨hrenewal, hfile, htick⟩ := hmerged hmerge
          exact hsame hrenewal hfile htick
        · cases hstep
    · cases hstep
  | reconcile_remove =>
    simp only [step] at hstep
    split at hstep
    · obtain ⟨_, _, rfl⟩ := Option.map_eq_some_iff.mp hstep
      exact hsame rfl rfl rfl
    · cases hstep
  | reconcile_finish order =>
    simp only [step] at hstep
    split at hstep
    · rename_i holder hheld
      obtain ⟨_, _, rfl⟩ := save_spec hstep
      cases holder with
      | api i => exact hsame rfl rfl rfl
      | renewal =>
        refine .still ?_ ?_ rfl rfl <;> cases hrenewal : s.renewal <;>
          simp [Server.release, Renewal.last_sig, Renewal.waiting, hrenewal]
    · cases hstep
  | renewal_sample =>
    simp only [step] at hstep
    split at hstep
    · rename_i hrenewal
      cases hstep
      exact .first rfl (ha hrenewal) rfl rfl
    · rename_i last_sig hrenewal
      cases hstep
      exact .sample last_sig hrenewal rfl rfl rfl
    · cases hstep
  | renewal_expire order =>
    simp only [step] at hstep
    split at hstep
    · rename_i last_sig now hrenewal
      split at hstep
      · cases hstep
        exact .still (by rw [hrenewal]; rfl) (by rw [hrenewal]; rfl) rfl rfl
      · obtain ⟨_, _, rfl⟩ := save_spec hstep
        exact .still (by rw [hrenewal]; rfl) (by rw [hrenewal]; rfl) rfl rfl
    · cases hstep
  | renewal_select order =>
    simp only [step] at hstep
    split at hstep
    · rename_i last_sig now hrenewal
      split at hstep
      · obtain ⟨_, _, rfl⟩ := Option.map_eq_some_iff.mp hstep
        exact .still (by rw [hrenewal]; rfl) (by rw [hrenewal]; rfl) rfl rfl
      · cases hstep
    · cases hstep
  | renewal_answer res now drawn order =>
    simp only [step] at hstep
    split at hstep
    · rename_i last_sig sub candidates hrenewal
      split at hstep
      · obtain ⟨after, _, hmerge⟩ := Option.bind_eq_some_iff.mp hstep
        obtain ⟨hafter, hfile, htick⟩ := hmerged hmerge
        exact .still (by rw [hafter, hrenewal]; rfl) (by rw [hafter, hrenewal]; rfl) hfile htick
      · cases hstep
    · cases hstep
  | renewal_sleep =>
    simp only [step] at hstep
    split at hstep
    · rename_i last_sig hrenewal
      cases hstep
      exact .sleep last_sig hrenewal rfl rfl rfl
    · cases hstep
  | get_verify i order =>
    simp only [step] at hstep
    split at hstep
    · split at hstep
      · cases hstep
        exact hsame rfl rfl rfl
      · obtain ⟨_, _, rfl⟩ := save_spec hstep
        exact hsame rfl rfl rfl
    · cases hstep
  | restart cache =>
    cases hstep
    exact .restart rfl rfl
  | renewal_wake =>
    simp only [step] at hstep
    split at hstep <;> cases hstep
    rename_i hrenewal
    exact .still (by rw [hrenewal]; rfl) (by rw [hrenewal]; rfl) rfl rfl
  | renewal_send =>
    simp only [step] at hstep
    split at hstep <;> cases hstep
    rename_i hrenewal
    exact .still (by rw [hrenewal]; rfl) (by rw [hrenewal]; rfl) rfl rfl
  | advance _ | post_render _ | post_fail _ | post_try_lock _ | reconcile_read _ _ | reconcile_diff _
  | reconcile_insert _ _ _ | reconcile_unsubscribe | get_lookup _ _ | get_unsub_topic _ _ | get_forget _ =>
    simp only [step] at hstep
    repeat' split at hstep
    all_goals cases hstep
    all_goals exact hsame rfl rfl rfl

/-- Unless the signature of the file tells the loop that it has changed, its contents have
been read. -/
structure Watching (s : Server) : Prop where
  seen : s.tick ≠ .none → s.renewal.last_sig = some (channels_sig s.file)
  current : s.renewal.last_sig = some (channels_sig s.file) → s.renewal.waiting = false → s.UpToDate
  waiting : s.renewal.waiting = true → s.tick ≠ .completed

theorem Turn.watching {s s' : Server} (h : Turn s s') (hs : Watching s)
    (hkept : s'.renewal ≠ .starting → s'.file = s.file → s.UpToDate → s'.UpToDate) : Watching s' := by
  have hstarted : ∀ {last_sig : U64 × Nat}, s'.renewal.last_sig = some last_sig → s'.renewal ≠ .starting := by
    intro last_sig hlast hstarting
    rw [hstarting] at hlast
    cases hlast
  cases h with
  | still last_sig waiting file tick =>
    refine ⟨?_, fun hlast hwaiting => ?_, ?_⟩
    · rw [last_sig, file, tick]
      exact hs.seen
    · refine hkept (hstarted hlast) file (hs.current ?_ (waiting ▸ hwaiting))
      rw [← last_sig, ← file]
      exact hlast
    · rw [waiting, tick]
      exact hs.waiting
  | write renewal tick distinct =>
    refine ⟨fun htick => absurd tick htick, fun hlast _ => absurd (renewal ▸ hlast) distinct, fun _ => ?_⟩
    rw [tick]
    decide
  | first renewal current file tick =>
    refine ⟨fun _ => ?_, fun hlast _ => hkept (hstarted hlast) file current, fun hwaiting => ?_⟩
    · rw [renewal, file]
      rfl
    · rw [renewal] at hwaiting
      cases hwaiting
  | sample last_sig sleeping renewal file tick =>
    have hlast : s.renewal.last_sig = some last_sig := by rw [sleeping]; rfl
    by_cases hsig : channels_sig s.file = last_sig
    · rw [if_neg (not_not.mpr hsig)] at renewal
      refine ⟨fun _ => ?_, fun hsame _ => hkept (hstarted hsame) file (hs.current ?_ ?_), fun hwaiting => ?_⟩
      · rw [renewal, file, hsig]
        rfl
      · rw [hlast, hsig]
      · rw [sleeping]
        rfl
      · rw [renewal] at hwaiting
        cases hwaiting
    · rw [if_pos hsig] at renewal
      refine ⟨fun _ => ?_, fun _ hwaiting => ?_, fun _ => ?_⟩
      · rw [renewal, file]
        rfl
      · rw [renewal] at hwaiting
        cases hwaiting
      · -- A tick that has been completed would have left the signature as it was.
        have hnone : s.tick = .none := by
          by_contra htick
          exact hsig (Option.some.inj ((hs.seen htick).symm.trans hlast))
        rw [tick, if_pos hnone]
        decide
  | lock last_sig blocked renewal reading file tick =>
    refine ⟨?_, fun _ _ => Or.inr ⟨_, reading⟩, fun hwaiting => ?_⟩
    · have hlast : s'.renewal.last_sig = s.renewal.last_sig := by rw [renewal, blocked]; rfl
      rw [hlast, file, tick]
      exact hs.seen
    · rw [renewal] at hwaiting
      cases hwaiting
  | sleep last_sig renewing renewal file tick =>
    have hlast : s'.renewal.last_sig = s.renewal.last_sig := by rw [renewal, renewing]; rfl
    refine ⟨fun htick => ?_, fun hsame _ => hkept (hstarted hsame) file (hs.current ?_ ?_), fun hwaiting => ?_⟩
    · rw [hlast, file]
      refine hs.seen fun hnone => htick ?_
      rw [tick, hnone]
      rfl
    · rw [← hlast, ← file]
      exact hsame
    · rw [renewing]
      rfl
    · rw [renewal] at hwaiting
      cases hwaiting
  | restart renewal tick =>
    refine ⟨fun htick => absurd tick htick, fun hlast _ => absurd renewal (hstarted hlast), fun _ => ?_⟩
    rw [tick]
    decide

theorem Progress.resolved {ident : Text → Text} {s s' : Server} {a : Action} (h : Progress s a s')
    (hresolves : Resolves ident s a) (hs : ∀ r, s.last_read = some r → r.Resolved ident) :
    ∀ r, s'.last_read = some r → r.Resolved ident := by
  intro r hr
  cases h with
  | read holder readable fetch content action file held lock channels last_read same =>
    rw [last_read, Option.some.injEq] at hr
    subst action
    rw [← hr, file]
    exact hresolves
  | restart action lock last_read renewal =>
    rw [last_read] at hr
    cases hr
  | other lock channels last_read => exact hs r (last_read ▸ hr)
  | taken holder free lock channels last_read => exact hs r (last_read ▸ hr)
  | diff holder desired complete removes action held removed lock channels last_read => exact hs r (last_read ▸ hr)
  | insert holder cid token secret now adds removes held lock channels last_read => exact hs r (last_read ▸ hr)
  | answer holder sub adds removes held lock channels last_read => exact hs r (last_read ▸ hr)
  | unsubscribe holder sub removes held lock channels last_read => exact hs r (last_read ▸ hr)
  | remove holder sub removes action held lock channels last_read => exact hs r (last_read ▸ hr)
  | finish holder held lock channels last_read => exact hs r (last_read ▸ hr)

/-- What has been read stays read until the file is written again. -/
theorem Progress.upToDate {ident : Text → Text} {s s' : Server} {a : Action} (h : Progress s a s')
    (hresolves : Resolves ident s a) (hfile : s'.file = s.file) (hs : s.UpToDate) :
    s'.UpToDate ∨ s'.renewal = .starting := by
  have hkept : s'.last_read = s.last_read → (∀ holder, s.reconcile_lock ≠ some (holder, .reading)) → s'.UpToDate := by
    intro hread hlock
    obtain ⟨r, hr, hcontent⟩ | ⟨holder, hheld⟩ := hs
    · exact Or.inl ⟨r, hread.trans hr, by rw [hcontent, hfile]⟩
    · exact absurd hheld (hlock holder)
  cases h with
  | other lock channels last_read =>
    left
    unfold Server.UpToDate at hs ⊢
    rwa [lock, last_read, hfile]
  | taken holder free lock channels last_read => exact Or.inl (Or.inr ⟨holder, lock⟩)
  | read holder readable fetch content action file held lock channels last_read same =>
    left
    left
    subst action
    obtain ⟨text, htext, _⟩ := hresolves
    refine ⟨_, last_read, ?_⟩
    cases readable with
    | true => rw [file, if_pos rfl, hfile]
    | false => simp at htext
  | diff holder desired complete removes action held removed lock channels last_read =>
    exact Or.inl (hkept last_read (by simp [held]))
  | insert holder cid token secret now adds removes held lock channels last_read =>
    exact Or.inl (hkept last_read (by simp [held]))
  | answer holder sub adds removes held lock channels last_read => exact Or.inl (hkept last_read (by simp [held]))
  | unsubscribe holder sub removes held lock channels last_read => exact Or.inl (hkept last_read (by simp [held]))
  | remove holder sub removes action held lock channels last_read => exact Or.inl (hkept last_read (by simp [held]))
  | finish holder held lock channels last_read => exact Or.inl (hkept last_read (by simp [held]))
  | restart action lock last_read renewal => exact Or.inr renewal

/-- Every reconcile so far found that all entries resolve, and every change of the file is
noticed. -/
structure Caught (ident : Text → Text) (epoch : U64) (s : Server) : Prop where
  sound : Sound epoch s
  agrees : ∀ r, s.last_read = some r → r.complete = true → s.Agrees r
  resolved : ∀ r, s.last_read = some r → r.Resolved ident
  watching : Watching s

theorem step_caught {cfg : Config} {ident : Text → Text} {s s' : Server} {a : Action} (h : Caught ident epoch s)
    (hresolves : Resolves ident s a) (hnotice : Noticeable s a) (hstep : step cfg s a = some s') :
    Caught ident epoch s' := by
  have hprogress := step_progress h.sound.memory.keyed hstep
  refine ⟨step_sound h.sound hstep, hprogress.agrees h.sound.memory.keyed h.agrees,
    hprogress.resolved hresolves h.resolved, (step_turn hnotice hstep).watching h.watching ?_⟩
  exact fun hstarted hfile hs => (hprogress.upToDate hresolves hfile hs).resolve_right hstarted

theorem Caught.init (ident : Text → Text) (clock : U64) (file : Option ChannelsFile) (cache : HashMap Text Text) :
    Caught ident clock (.init clock file cache) where
  sound := .init clock file cache
  agrees := by simp [Server.init]
  resolved := by simp [Server.init]
  watching := ⟨fun htick => absurd rfl htick, fun hlast => by simp [Server.init, Renewal.last_sig] at hlast,
    fun hwaiting => by simp [Server.init, Renewal.waiting] at hwaiting⟩

/-- After a whole tick since the last write, the channels that have a subscription are the
ones that the file lists. -/
theorem accepted_change_applied {cfg : Config} {ident : Text → Text} {clock : U64}
    {file : Option ChannelsFile} {cache : HashMap Text Text} {actions : List Action} {s : Server}
    (hrun : machine.Run (step cfg) (.init clock file cache) actions s)
    (hresolves : machine.Along (step cfg) (Resolves ident) (.init clock file cache) actions)
    (hnotice : machine.Along (step cfg) Noticeable (.init clock file cache) actions)
    (htick : s.tick = .completed) (hfree : s.reconcile_lock = none) :
    ∃ file content, s.file = some file ∧ decode file.content = some content ∧
      ∀ c, c ∈ s.reg.subs ↔ ∃ line ∈ active_lines content, ident line = c := by
  have hcaught : Caught ident clock s := hrun.invariant_along (Caught ident clock)
    (fun _ _ _ h hstep => step_caught h hstep.1 hstep.2) (hresolves.and hnotice) (.init ident clock file cache)
  have hlast := hcaught.watching.seen (htick ▸ by decide)
  have hwaiting : s.renewal.waiting = false :=
    Bool.eq_false_iff.mpr fun hwaiting => hcaught.watching.waiting hwaiting htick
  obtain ⟨r, hr, hcurrent⟩ | ⟨holder, hreading⟩ := hcaught.watching.current hlast hwaiting
  · have hresolved := hcaught.resolved r hr
    have hagrees := hcaught.agrees r hr hresolved.complete
    rw [Server.Agrees, hfree] at hagrees
    obtain ⟨content, hcontent, hlines⟩ := hresolved
    obtain ⟨bytes, hbytes, hdecode⟩ := Option.bind_eq_some_iff.mp hcontent
    rw [hcurrent] at hbytes
    obtain ⟨file, hfile, rfl⟩ := Option.map_eq_some_iff.mp hbytes
    refine ⟨file, content, hfile, hdecode, fun c => ?_⟩
    rw [hagrees c, Read.mem_desired hcontent, hlines]
    simp
  · rw [hfree] at hreading
    cases hreading

/-- The operator adds a channel, and the next tick subscribes to it. -/
def editActions : List Action :=
  startupActions ++
    [.renewal_sample, .edit twoChannelFile, .renewal_sample, .renewal_lock, .reconcile_read true (fun _ _ => none),
      .reconcile_diff [], .reconcile_insert [0x55, 0x66] [0x77, 0x88] 1, .reconcile_answer (.ok 202) 1 0 [],
      .reconcile_finish [firstSub, secondSub], .renewal_wake, .renewal_expire [], .renewal_select [firstSub, secondSub],
      .renewal_sleep]

theorem accepted_change_applied_edit :
    ∃ s, machine.Run (step ⟨864000⟩) (.init 1 (some oneChannelFile) ∅) editActions s ∧
      ∃ file content, s.file = some file ∧ decode file.content = some content ∧
        ∀ c, c ∈ s.reg.subs ↔ ∃ line ∈ active_lines content, id line = c := by
  obtain ⟨s, hrun, hdone⟩ := machine.exists_run (step ⟨864000⟩)
    (show (editActions.foldlM (step ⟨864000⟩) (.init 1 (some oneChannelFile) ∅)).any
      (fun s => s.tick = .completed ∧ s.reconcile_lock = none) = true by decide +kernel)
  rw [decide_eq_true_eq] at hdone
  have hresolves : machine.Along (step ⟨864000⟩) (Resolves id) (.init 1 (some oneChannelFile) ∅) editActions := by
    decide +kernel
  have hnotice : machine.Along (step ⟨864000⟩) Noticeable (.init 1 (some oneChannelFile) ∅) editActions := by
    decide +kernel
  exact ⟨s, hrun, accepted_change_applied hrun hresolves hnotice hdone.1 hdone.2⟩

/-- Every write changes the signature of the file. -/
def Changes (s : Server) : Action → Prop
  | .edit file => channels_sig (some file) ≠ channels_sig s.file
  | .post_write i mtime =>
    match s.posts[i]? with
    | some (.rendered content) => channels_sig (some { content, mtime }) ≠ channels_sig s.file
    | _ => True
  | _ => True

instance (s : Server) (a : Action) : Decidable (Changes s a) := by
  unfold Changes
  split
  · infer_instance
  · split <;> infer_instance
  · infer_instance

/-- A request that lands while the startup reconcile is on its way to the hub. -/
def lostActions : List Action :=
  [.renewal_lock, .reconcile_read true (fun _ _ => none),
    .post_render (encode "\x7b\"channels\":[\"UCbcdefghijklmnopqrstuvw\"]\x7d".toList), .post_write 0 2,
    .post_try_lock 0, .reconcile_diff [], .reconcile_insert [0x11, 0x22] [0x33, 0x44] 1,
    .reconcile_answer (.ok 202) 1 0 [],
    .reconcile_finish [firstSub], .renewal_sample, .renewal_sample, .renewal_wake, .renewal_expire [],
    .renewal_select [firstSub], .renewal_sleep]

/-- The loop takes its first sample after the write, so it sees no change: the request was
accepted, and its channel is never subscribed to. -/
theorem accepted_change_lost :
    machine.Along (step ⟨864000⟩) (Resolves id) (.init 1 (some oneChannelFile) ∅) lostActions ∧
      machine.Along (step ⟨864000⟩) Changes (.init 1 (some oneChannelFile) ∅) lostActions ∧
      ∃ s, machine.Run (step ⟨864000⟩) (.init 1 (some oneChannelFile) ∅) lostActions s ∧
        s.tick = .completed ∧ s.reconcile_lock = none ∧ s.posts = [.answered 202] ∧
        ∃ file content line, s.file = some file ∧ decode file.content = some content ∧
          line ∈ active_lines content ∧ id line ∉ s.reg.subs := by
  have hresolves : machine.Along (step ⟨864000⟩) (Resolves id) (.init 1 (some oneChannelFile) ∅) lostActions := by
    decide +kernel
  have hchanges : machine.Along (step ⟨864000⟩) Changes (.init 1 (some oneChannelFile) ∅) lostActions := by
    decide +kernel
  obtain ⟨s, hrun, hlost⟩ := machine.exists_run (step ⟨864000⟩)
    (show (lostActions.foldlM (step ⟨864000⟩) (.init 1 (some oneChannelFile) ∅)).any
      (fun s => s.tick = .completed ∧ s.reconcile_lock = none ∧ s.posts = [.answered 202] ∧
        s.file.map ChannelsFile.content = some (encode "UCbcdefghijklmnopqrstuvw\n".toList) ∧
        "UCbcdefghijklmnopqrstuvw".toList ∉ s.reg.subs) = true by decide +kernel)
  rw [decide_eq_true_eq] at hlost
  obtain ⟨htick, hfree, hposts, hcontent, hmissing⟩ := hlost
  obtain ⟨file, hfile, hbytes⟩ := Option.map_eq_some_iff.mp hcontent
  refine ⟨hresolves, hchanges, s, hrun, htick, hfree, hposts, file, "UCbcdefghijklmnopqrstuvw\n".toList, _, hfile,
    ?_, ?_, hmissing⟩
  · rw [hbytes]
    decide +kernel
  · decide +kernel

end yt_websub.server
