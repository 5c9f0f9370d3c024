import YtWebsub.Server.Progress
import YtWebsub.Subs.Persistence

open rust rust.utf8 rust.text rust.num rust.map
open yt_websub.util yt_websub.resolve yt_websub.subs yt_websub.renew yt_websub.callback

namespace yt_websub.server

variable {epoch : U64}

/-- What holds of every subscription at clock time `clock`, wherever it is kept, when the
server was first started at time `epoch`. -/
structure SoundSub (epoch clock : U64) (s : Sub) : Prop extends s.Storable where
  active_expires : s.state = active → epoch ≤ s.expires_at
  next_attempt_at : s.next_attempt_at.val ≤ clock.val + 2250
  last_subscribe_at : s.last_subscribe_at ≤ clock

theorem SoundSub.mono {clock clock' : U64} (hle : clock ≤ clock') {s : Sub} (h : SoundSub epoch clock s) :
    SoundSub epoch clock' s := by
  have hval := Fin.le_def.mp hle
  have hnext := h.next_attempt_at
  exact ⟨h.toStorable, h.active_expires, by omega, h.last_subscribe_at.trans hle⟩

theorem SoundSub.new {clock now : U64} (hnow : now ≤ clock) {cid : Text} (hcid : is_channel_id cid = true)
    (token secret : Bytes) : SoundSub epoch clock (new_sub cid token secret now) where
  channel_id := hcid
  token c hc := isHex_of_mem_rand_hex hc
  topic := rfl
  secret c hc := isHex_of_mem_rand_hex hc
  state := List.mem_cons_self
  last_error := Nat.zero_le _
  active_expires h := absurd h (show pending ≠ active by decide)
  next_attempt_at := Nat.zero_le _
  last_subscribe_at := hnow

/-- A copy about to be sent. -/
theorem SoundSub.sent {clock : U64} {s : Sub} (h : SoundSub epoch clock s) :
    SoundSub epoch clock { s with last_subscribe_at := clock } :=
  ⟨⟨h.channel_id, h.token, h.topic, h.secret, h.state, h.last_error⟩, h.active_expires, h.next_attempt_at, le_rfl⟩

theorem SoundSub.demoted {clock : U64} {s : Sub} (h : SoundSub epoch clock s) : SoundSub epoch clock (demoted s) :=
  ⟨⟨h.channel_id, h.token, h.topic, h.secret, show expired ∈ states by decide, h.last_error⟩,
    fun hactive => absurd hactive (show expired ≠ active by decide), h.next_attempt_at, h.last_subscribe_at⟩

theorem SoundSub.verified {clock : U64} {s : Sub} (h : SoundSub epoch clock s) (hclock : epoch ≤ clock)
    (lease : U64) :
    SoundSub epoch clock (verified s lease clock) := by
  refine ⟨⟨h.channel_id, h.token, h.topic, h.secret, show active ∈ states by decide, h.last_error⟩, fun _ => ?_,
    Nat.zero_le _, h.last_subscribe_at⟩
  have hval := Fin.le_def.mp hclock
  have hlast := epoch.isLt
  show epoch.val ≤ min (clock.val + lease.val) (2 ^ 64 - 1)
  omega

theorem SoundSub.outcome {clock : U64} {before after : Sub} (h : SoundSub epoch clock before)
    (houtcome : Outcome clock before after) : SoundSub epoch clock after := by
  refine ⟨⟨?_, ?_, ?_, ?_, ?_, houtcome.last_error⟩, fun hactive => ?_, houtcome.next_attempt_at, ?_⟩
  · rw [houtcome.channel_id]
    exact h.channel_id
  · rw [houtcome.token]
    exact h.token
  · rw [houtcome.topic, houtcome.channel_id]
    exact h.topic
  · rw [houtcome.secret]
    exact h.secret
  · obtain hstate | hstate | ⟨_, hstate⟩ := houtcome.state <;> rw [hstate] <;> decide
  · rw [houtcome.expires_at]
    obtain hstate | hstate | ⟨hbefore, _⟩ := houtcome.state
    · rw [hactive] at hstate
      exact absurd hstate (by decide)
    · rw [hactive] at hstate
      exact absurd hstate (by decide)
    · exact h.active_expires hbefore
  · rw [houtcome.last_subscribe_at]
    exact h.last_subscribe_at

theorem SoundSub.write_back {clock : U64} {cur s : Sub} (hcur : SoundSub epoch clock cur)
    (h : SoundSub epoch clock s) :
    SoundSub epoch clock (write_back cur s) := by
  unfold renew.write_back
  split
  · rename_i hactive
    exact ⟨⟨h.channel_id, h.token, h.topic, h.secret, show active ∈ states by decide, h.last_error⟩,
      fun _ => hcur.active_expires hactive, h.next_attempt_at, h.last_subscribe_at⟩
  · exact h

/-- Every subscription of a registry is under its channel and sound. -/
structure SoundRegistry (epoch clock : U64) (reg : Registry) : Prop where
  keyed : reg.Keyed
  sound : ∀ c s, reg.subs.lookup c = some s → SoundSub epoch clock s

/-- Every subscription is sound: in memory, on disk and in the hands of a thread. -/
structure Sound (epoch : U64) (s : Server) : Prop where
  begun : epoch ≤ s.clock
  memory : SoundRegistry epoch s.clock s.reg
  stored : SoundRegistry epoch s.clock (.load s.disk)
  snapshots : ∀ sub ∈ s.snapshots, SoundSub epoch s.clock sub
  wanted : ∀ id ∈ s.wanted, is_channel_id id = true
  past : ∀ now, s.renewal.now = some now → now ≤ s.clock

theorem SoundRegistry.mono {clock clock' : U64} (hle : clock ≤ clock') {reg : Registry}
    (h : SoundRegistry epoch clock reg) :
    SoundRegistry epoch clock' reg :=
  ⟨h.keyed, fun c s hs => (h.sound c s hs).mono hle⟩

theorem SoundRegistry.of_subs {clock : U64} {reg reg' : Registry} (h : SoundRegistry epoch clock reg)
    (hsubs : reg'.subs = reg.subs) : SoundRegistry epoch clock reg' :=
  ⟨fun c s hs => h.keyed c s (hsubs ▸ hs), fun c s hs => h.sound c s (hsubs ▸ hs)⟩

theorem SoundRegistry.insert {clock : U64} {reg : Registry} (h : SoundRegistry epoch clock reg) {s : Sub}
    (hs : SoundSub epoch clock s) : SoundRegistry epoch clock (reg.insert s) := by
  refine ⟨h.keyed.insert s, fun c s' hs' => ?_⟩
  obtain ⟨_, rfl⟩ | ⟨_, hold⟩ := lookup_insert.mp hs'
  · exact hs
  · exact h.sound c s' hold

theorem SoundRegistry.update {clock : U64} {reg : Registry} (h : SoundRegistry epoch clock reg) {s : Sub}
    (hs : SoundSub epoch clock s) : SoundRegistry epoch clock (reg.update s) := by
  refine ⟨h.keyed.update s, fun c s' hs' => ?_⟩
  obtain ⟨_, rfl⟩ | ⟨_, hold⟩ := lookup_update.mp hs'
  · exact hs
  · exact h.sound c s' hold

theorem SoundRegistry.expire {clock now : U64} {reg reg' : Registry} (h : SoundRegistry epoch clock reg)
    (hexpire : expire_lapsed reg now = some reg') : SoundRegistry epoch clock reg' := by
  have hlookup : ∀ c s, reg'.subs.lookup c = some s → s.channel_id = c ∧ SoundSub epoch clock s := by
    intro c s hs
    rw [expire_lapsed_spec h.keyed hexpire] at hs
    obtain ⟨old, hold, rfl⟩ := Option.map_eq_some_iff.mp hs
    split
    · exact ⟨h.keyed c old hold, (h.sound c old hold).demoted⟩
    · exact ⟨h.keyed c old hold, h.sound c old hold⟩
  exact ⟨fun c s hs => (hlookup c s hs).1, fun c s hs => (hlookup c s hs).2⟩

theorem SoundRegistry.remove {clock now : U64} {reg reg' : Registry} (h : SoundRegistry epoch clock reg) {cid : Text}
    (hremove : reg.remove cid now = some reg') : SoundRegistry epoch clock reg' :=
  ⟨fun c s hs => h.keyed c s ((lookup_remove hremove).mp hs).2,
    fun c s hs => h.sound c s ((lookup_remove hremove).mp hs).2⟩

theorem SoundRegistry.storable {clock : U64} {reg : Registry} (h : SoundRegistry epoch clock reg) :
    ∀ s ∈ values reg.subs, s.Storable := by
  intro s hs
  obtain ⟨c, hc⟩ := mem_values.mp hs
  exact (h.sound c s hc).toStorable

/-- What was saved is what a restart will find. -/
theorem Saved.lookup {clock : U64} {s' : Server} {reg : Registry} (h : Saved s' reg)
    (hsound : SoundRegistry epoch clock reg)
    (c : Text) : (Registry.load s'.disk).subs.lookup c = reg.subs.lookup c := by
  obtain ⟨_, order, bytes, hsave, hdisk⟩ := h
  rw [hdisk]
  exact load_save hsound.keyed hsound.storable hsave c

theorem Saved.stored {clock : U64} {s' : Server} {reg : Registry} (h : Saved s' reg)
    (hsound : SoundRegistry epoch clock reg) : SoundRegistry epoch clock (.load s'.disk) :=
  ⟨fun c s hs => hsound.keyed c s (h.lookup hsound c ▸ hs), fun c s hs => hsound.sound c s (h.lookup hsound c ▸ hs)⟩

/-- The ids still to be added are those wanted before, or newly resolved ones. -/
theorem Progress.wanted {s s' : Server} {a : Action} (h : Progress s a s') {id : Text} (hid : id ∈ s'.wanted) :
    id ∈ s.wanted ∨ is_channel_id id = true := by
  unfold Server.wanted at hid ⊢
  cases h with
  | other lock channels last_read => exact Or.inl (lock ▸ hid)
  | taken holder free lock channels last_read => simp [lock] at hid
  | read holder readable fetch content action file held lock channels last_read same =>
    rw [lock] at hid
    exact Or.inr (desired_set_valid hid)
  | diff holder desired complete removes action held removed lock channels last_read =>
    rw [lock] at hid
    rw [held]
    exact Or.inl (List.mem_of_mem_filter hid)
  | insert holder cid token secret now adds removes held lock channels last_read =>
    rw [lock] at hid
    rw [held]
    exact Or.inl (List.mem_cons_of_mem _ hid)
  | answer holder sub adds removes held lock channels last_read =>
    rw [lock] at hid
    rw [held]
    exact Or.inl hid
  | unsubscribe holder sub removes held lock channels last_read => simp [lock] at hid
  | remove holder sub removes action held lock channels last_read => simp [lock] at hid
  | finish holder held lock channels last_read => simp [lock] at hid
  | restart action lock last_read renewal => simp [lock] at hid

/-- The time that a renewal pass works with is never ahead of the clock. -/
theorem step_past {cfg : Config} {s s' : Server} {a : Action} (hstep : step cfg s a = some s')
    (hpast : ∀ now, s.renewal.now = some now → now ≤ s.clock) {now : U64} (hnow : s'.renewal.now = some now) :
    now ≤ s'.clock := by
  cases step_pass hstep with
  | other snapshots time =>
    obtain rfl | hold := time now hnow
    · exact step_clock hstep
    · exact (hpast now hold).trans (step_clock hstep)
  | select last_sig now' order action pc perm chosen done =>
    rw [done] at hnow
    cases hnow
  | send last_sig sub candidates action pc sent =>
    rw [sent] at hnow
    cases hnow

theorem step_sound {cfg : Config} {s s' : Server} {a : Action} (h : Sound epoch s) (hstep : step cfg s a = some s') :
    Sound epoch s' := by
  have hwanted : ∀ id ∈ s'.wanted, is_channel_id id = true := fun id hid =>
    ((step_progress h.memory.keyed hstep).wanted hid).elim (h.wanted id) fun hvalid => hvalid
  have hpast : ∀ now, s'.renewal.now = some now → now ≤ s'.clock := fun _ => step_past hstep h.past
  have hkept : s'.clock = s.clock → s'.snapshots ⊆ s.snapshots → ∀ sub ∈ s'.snapshots, SoundSub epoch s'.clock sub :=
    fun hclock hsub sub hmem => hclock ▸ h.snapshots sub (hsub hmem)
  have hsaved : ∀ reg, s'.clock = s.clock → s'.snapshots ⊆ s.snapshots → Saved s' reg →
      SoundRegistry epoch s.clock reg → Sound epoch s' := by
    intro reg hclock hsnapshots hsaved hreg
    refine ⟨hclock ▸ h.begun, ?_, ?_, hkept hclock hsnapshots, hwanted, hpast⟩
    · rw [hclock, hsaved.1]
      exact hreg
    · rw [hclock]
      exact hsaved.stored hreg
  cases step_effect hstep with
  | quiet clock reg disk grants tokens snapshots =>
    refine ⟨h.begun.trans clock, (h.memory.mono clock).of_subs (congrArg Registry.subs reg),
      disk ▸ h.stored.mono clock, ?_, hwanted, hpast⟩
    intro sub hsub
    obtain hold | hvalue | ⟨old, hold, rfl⟩ := snapshots sub hsub
    · exact (h.snapshots sub hold).mono clock
    · obtain ⟨c, hc⟩ := mem_values.mp hvalue
      exact (h.memory.sound c sub hc).mono clock
    · exact (h.snapshots old hold).sent.mono clock
  | insert cid token secret now holder adds removes action held time fresh clock reg disk grants tokens snapshots =>
    have hcid : cid ∈ s.wanted := by simp [Server.wanted, held]
    have hnew : SoundSub epoch s.clock _ := .new time (h.wanted cid hcid) token secret
    refine ⟨clock ▸ h.begun, ?_, ?_, ?_, hwanted, hpast⟩
    · rw [clock, reg]
      exact h.memory.insert hnew
    · rw [clock, disk]
      exact h.stored
    · intro sub hsub
      rw [clock]
      obtain hold | rfl := snapshots sub hsub
      · exact h.snapshots sub hold
      · exact hnew
  | merge before after cur action snapshot outcome stored same clock saved grants tokens snapshots =>
    have hafter := (h.snapshots before snapshot).outcome outcome
    exact hsaved _ clock snapshots saved
      (h.memory.update ((h.memory.sound _ cur stored).write_back hafter))
  | verify cid cur lease action stored capped clock saved grants tokens snapshots =>
    exact hsaved _ clock snapshots saved (h.memory.update ((h.memory.sound cid cur stored).verified h.begun lease))
  | expire now last_sig action pc reg lapsed clock saved grants tokens snapshots =>
    exact hsaved _ clock snapshots saved (h.memory.expire lapsed)
  | remove holder sub removes action held reg clock disk grants tokens snapshots =>
    refine ⟨clock ▸ h.begun, ?_, ?_, hkept clock snapshots, hwanted, hpast⟩
    · rw [clock]
      exact h.memory.remove reg
    · rw [clock, disk]
      exact h.stored
  | forget i token now challenge action confirming clock reg disk grants tokens snapshots =>
    refine ⟨clock ▸ h.begun, ?_, ?_, hkept clock snapshots, hwanted, hpast⟩
    · rw [clock, reg]
      exact h.memory.of_subs rfl
    · rw [clock, disk]
      exact h.stored
  | save action clock saved grants tokens snapshots => exact hsaved _ clock snapshots saved h.memory
  | restart cache action clock reg disk grants tokens snapshots =>
    refine ⟨clock ▸ h.begun, ?_, ?_, ?_, hwanted, hpast⟩
    · rw [clock, reg]
      exact h.stored
    · rw [clock, disk]
      exact h.stored
    · rw [snapshots]
      exact fun sub hsub => absurd hsub List.not_mem_nil

theorem Sound.init (clock : U64) (file : Option ChannelsFile) (cache : HashMap Text Text) :
    Sound clock (.init clock file cache) where
  begun := le_rfl
  memory := ⟨fun c s hs => by simp [Server.init, Registry.empty] at hs,
    fun c s hs => by simp [Server.init, Registry.empty] at hs⟩
  stored := ⟨fun c s hs => by simp [Server.init, Registry.load, Registry.empty] at hs,
    fun c s hs => by simp [Server.init, Registry.load, Registry.empty] at hs⟩
  snapshots := by simp [Server.init, Server.snapshots, Renewal.snapshots]
  wanted := by simp [Server.init, Server.wanted]
  past := by simp [Server.init, Renewal.now]

theorem sound_of_run {cfg : Config} {clock : U64} {file : Option ChannelsFile}
    {cache : HashMap Text Text} {actions : List Action} {s : Server}
    (hrun : machine.Run (step cfg) (.init clock file cache) actions s) : Sound clock s :=
  hrun.invariant (Sound clock) (fun _ _ _ => step_sound) (.init clock file cache)

/-- Long enough after the state was taken, only a lease that is not near its end keeps a
subscription from being selected. -/
theorem SoundSub.due {clock now : U64} {s : Sub} (h : SoundSub epoch clock s) (hepoch : 0 < epoch)
    (hnow : clock.val + 2250 ≤ now.val) {due : Bool}
    (hdue : is_due now s = some due) :
    due = true ∨ (s.state = active ∧ now.val + RENEW_LEAD < s.expires_at.val) := by
  have hnext := h.next_attempt_at
  have hlast := Fin.le_def.mp h.last_subscribe_at
  have hready : ¬ now < s.next_attempt_at := by
    rw [Fin.lt_def]
    omega
  rw [is_due, if_neg hready] at hdue
  have hstates := h.state
  simp only [states, List.mem_cons, List.not_mem_nil, or_false] at hstates
  by_cases hactive : s.state = active
  · rw [if_pos hactive, if_pos (hepoch.trans_le (h.active_expires hactive))] at hdue
    obtain ⟨horizon, hhorizon, rfl⟩ := Option.map_eq_some_iff.mp hdue
    have hval := checked_add_eq_some.mp hhorizon
    rw [decide_eq_true_eq, Fin.le_def]
    by_cases hnear : s.expires_at.val ≤ horizon.val
    · exact Or.inl hnear
    · exact Or.inr ⟨hactive, by omega⟩
  · left
    rw [if_neg hactive] at hdue
    by_cases hpending : s.state = pending
    · rw [if_pos hpending, Option.some.injEq] at hdue
      rw [← hdue, decide_eq_true_eq, saturating_sub_val, PENDING_TIMEOUT]
      omega
    · rw [if_neg hpending, Option.some.injEq] at hdue
      rw [← hdue, Bool.or_eq_true, decide_eq_true_eq, decide_eq_true_eq]
      obtain hstate | hstate | hstate | hstate := hstates
      · exact absurd hstate hpending
      · exact absurd hstate hactive
      · exact Or.inr hstate
      · exact Or.inl hstate

/-- No subscription is stranded: from 2250 seconds on, every renewal pass that meets it
unchanged selects it, unless it is active with more than a day of its lease left. -/
theorem never_stranded {cfg : Config} {clock : U64} (hclock : 0 < clock) {file : Option ChannelsFile}
    {cache : HashMap Text Text} {actions : List Action} {s : Server}
    (hrun : machine.Run (step cfg) (.init clock file cache) actions s) {c : Text} {sub : Sub}
    (hsub : s.reg.subs.lookup c = some sub) :
    sub.state ∈ states ∧ (sub.state = active → 0 < sub.expires_at) ∧
      ∀ later s' now order, machine.Run (step cfg) s later s' → s'.reg.subs.lookup c = some sub →
        s.clock.val + 2250 ≤ now.val → order.Perm (values ((expire_lapsed s'.reg now).getD s'.reg).subs) →
          (now.val + RENEW_LEAD < 2 ^ 64 → (due_snapshot s'.reg now order).isSome) ∧
          ∀ chosen, due_snapshot s'.reg now order = some chosen →
            (if lapsed now sub then demoted sub else sub) ∈ chosen ∨
              (sub.state = active ∧ now.val + RENEW_LEAD < sub.expires_at.val) := by
  have hsound := sound_of_run hrun
  have hsubsound := hsound.memory.sound c sub hsub
  refine ⟨hsubsound.state, fun hactive => hclock.trans_le (hsubsound.active_expires hactive),
    fun later s' now order hlater hsub' hnow horder => ?_⟩
  have hkeyed := (sound_of_run (machine.run_append.mpr ⟨s, hrun, hlater⟩)).memory.keyed
  simp only [due_snapshot, if_pos horder]
  refine ⟨fun hroom => candidates_isSome hroom order, fun chosen hchosen => ?_⟩
  -- What the pass finds under the channel, once the lapsed leases are demoted.
  have hfound : ((expire_lapsed s'.reg now).getD s'.reg).subs.lookup c =
      some (if lapsed now sub then demoted sub else sub) := by
    cases hexpire : expire_lapsed s'.reg now with
    | some reg =>
      rw [Option.getD_some, expire_lapsed_spec hkeyed hexpire, hsub', Option.map_some]
    | none =>
      have hnone : lapsed now sub = false := by
        simp only [expire_lapsed] at hexpire
        split at hexpire
        · rename_i hempty
          rw [List.map_eq_nil_iff, List.filter_eq_nil_iff] at hempty
          simpa using hempty sub (mem_values.mpr ⟨c, hsub'⟩)
        · cases hexpire
      rw [Option.getD_none, hsub', hnone]
      rfl
  have hmem : (if lapsed now sub then demoted sub else sub) ∈ order :=
    horder.mem_iff.mpr (mem_values.mpr ⟨c, hfound⟩)
  have hcopy : SoundSub clock s.clock (if lapsed now sub then demoted sub else sub) := by
    split
    · exact hsubsound.demoted
    · exact hsubsound
  obtain ⟨due, hdue⟩ := is_due_of_candidates hchosen hmem
  obtain rfl | ⟨hactive, hfar⟩ := hcopy.due hclock hnow hdue
  · exact Or.inl ((mem_candidates hchosen _).mpr ⟨hmem, hdue⟩)
  · right
    split at hactive
    · exact absurd hactive (show expired ≠ active by decide)
    · rename_i hlive
      rw [if_neg hlive] at hfar
      exact ⟨hactive, hfar⟩

/-- A file with one channel in it, and the requests of one startup that register it. -/
def oneChannelFile : ChannelsFile where
  content := encode "UCabcdefghijklmnopqrstuv\n".toList
  mtime := 1

def firstSub : Sub :=
  new_sub "UCabcdefghijklmnopqrstuv".toList [0x11, 0x22] [0x33, 0x44] 1

def startupActions : List Action :=
  [.renewal_lock, .reconcile_read true (fun _ _ => none), .reconcile_diff [],
    .reconcile_insert [0x11, 0x22] [0x33, 0x44] 1, .reconcile_answer (.ok 202) 1 0 [],
    .reconcile_finish [firstSub]]

/-- The file with a second channel in it. -/
def twoChannelFile : ChannelsFile where
  content := encode "UCabcdefghijklmnopqrstuv\n# added\nUCbcdefghijklmnopqrstuvw\n".toList
  mtime := 2

def secondSub : Sub :=
  new_sub "UCbcdefghijklmnopqrstuvw".toList [0x55, 0x66] [0x77, 0x88] 1

theorem never_stranded_startup :
    ∃ s, machine.Run (step ⟨864000⟩) (.init 1 (some oneChannelFile) ∅) startupActions s ∧
      ∃ chosen, due_snapshot s.reg 3000 [firstSub] = some chosen ∧
        ((if lapsed 3000 firstSub then demoted firstSub else firstSub) ∈ chosen ∨
          firstSub.state = active ∧ (3000 : U64).val + RENEW_LEAD < firstSub.expires_at.val) := by
  have hrun : machine.Run (step ⟨864000⟩) (.init 1 (some oneChannelFile) ∅) startupActions _ := rfl
  obtain ⟨_, _, hpass⟩ := never_stranded (by decide) hrun (c := "UCabcdefghijklmnopqrstuv".toList)
    (show _ = some firstSub from rfl)
  exact ⟨_, hrun, _, rfl, (hpass [] _ 3000 [firstSub] rfl rfl (by decide) (by decide +kernel)).2 _ rfl⟩

end yt_websub.server
