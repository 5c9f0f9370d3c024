import YtWebsub.Server.Soundness

open rust rust.utf8 rust.text rust.num rust.map
open yt_websub.subs yt_websub.renew yt_websub.api yt_websub.callback

namespace yt_websub.server

variable {epoch : U64}

/-- The latest verification written under the token still counts at time `now`. -/
def Granted (grants : Text → Option (U64 × U64)) (token : Text) (now : U64) : Prop :=
  ∃ t lease, grants token = some (t, lease) ∧ now < saturating_add t lease

/-- A subscription is active while the clock may still be inside its latest lease, and
its expiry is the end of that lease. -/
structure LiveSub (clock : U64) (grants : Text → Option (U64 × U64)) (s : Sub) : Prop where
  active : s.state = active → ∃ t lease, grants s.token = some (t, lease) ∧ s.expires_at = saturating_add t lease
  inactive : s.state ≠ subs.active → ¬ Granted grants s.token clock

theorem Granted.mono {grants : Text → Option (U64 × U64)} {token : Text} {now now' : U64} (hle : now ≤ now')
    (h : Granted grants token now') : Granted grants token now := by
  obtain ⟨t, lease, hgrant, hlt⟩ := h
  exact ⟨t, lease, hgrant, hle.trans_lt hlt⟩

theorem LiveSub.mono {clock clock' : U64} (hle : clock ≤ clock') {grants : Text → Option (U64 × U64)} {s : Sub}
    (h : LiveSub clock grants s) : LiveSub clock' grants s :=
  ⟨h.active, fun hstate hgranted => h.inactive hstate (hgranted.mono hle)⟩

/-- From the clock on, a sub counts as live exactly while its latest lease lasts. -/
theorem LiveSub.is_live_iff {clock now : U64} {grants : Text → Option (U64 × U64)} {s : Sub}
    (h : LiveSub clock grants s) (hpositive : s.state = subs.active → 0 < s.expires_at) (hnow : clock ≤ now) :
    is_live now s = true ↔ Granted grants s.token now := by
  by_cases hactive : s.state = subs.active
  · obtain ⟨t, lease, hgrant, hexpires⟩ := h.active hactive
    have hpos := hpositive hactive
    simp only [is_live, Sub.lease_expired, hactive, decide_true, Bool.true_and, hpos, Bool.not_eq_true',
      decide_eq_false_iff_not, not_le]
    constructor
    · exact fun hlt => ⟨t, lease, hgrant, hexpires ▸ hlt⟩
    · rintro ⟨t', lease', hgrant', hlt⟩
      rw [hgrant, Option.some.injEq, Prod.mk.injEq] at hgrant'
      obtain ⟨rfl, rfl⟩ := hgrant'
      exact hexpires ▸ hlt
  · simp only [is_live, hactive, decide_false, Bool.false_and, Bool.false_eq_true, false_iff]
    exact fun hgranted => h.inactive hactive (hgranted.mono hnow)

/-- Every subscription of a registry is accounted for, under a token of its own. -/
structure LiveRegistry (clock : U64) (grants : Text → Option (U64 × U64)) (tokens : List Text) (reg : Registry) :
    Prop where
  live : ∀ c s, reg.subs.lookup c = some s → LiveSub clock grants s
  drawn : ∀ c s, reg.subs.lookup c = some s → s.token ∈ tokens
  distinct : ∀ c c' s s', reg.subs.lookup c = some s → reg.subs.lookup c' = some s' → s.token = s'.token → c = c'

theorem LiveRegistry.of_lookup {clock : U64} {grants : Text → Option (U64 × U64)} {tokens : List Text}
    {reg reg' : Registry} (h : LiveRegistry clock grants tokens reg)
    (hlookup : ∀ c, reg'.subs.lookup c = reg.subs.lookup c) : LiveRegistry clock grants tokens reg' :=
  ⟨fun c s hs => h.live c s (hlookup c ▸ hs), fun c s hs => h.drawn c s (hlookup c ▸ hs),
    fun c c' s s' hs hs' => h.distinct c c' s s' (hlookup c ▸ hs) (hlookup c' ▸ hs')⟩

theorem LiveRegistry.mono {clock clock' : U64} (hle : clock ≤ clock') {grants : Text → Option (U64 × U64)}
    {tokens : List Text} {reg : Registry} (h : LiveRegistry clock grants tokens reg) :
    LiveRegistry clock' grants tokens reg :=
  ⟨fun c s hs => (h.live c s hs).mono hle, h.drawn, h.distinct⟩

/-- A sub is replaced by one with the same token. -/
theorem LiveRegistry.update {clock : U64} {grants : Text → Option (U64 × U64)} {tokens : List Text} {reg : Registry}
    (h : LiveRegistry clock grants tokens reg) {s cur : Sub} (hcur : reg.subs.lookup s.channel_id = some cur)
    (htoken : s.token = cur.token) (hlive : LiveSub clock grants s) :
    LiveRegistry clock grants tokens (reg.update s) := by
  have htokens : ∀ c t, (reg.update s).subs.lookup c = some t →
      ∃ old, reg.subs.lookup c = some old ∧ t.token = old.token := by
    intro c t ht
    obtain ⟨rfl, rfl⟩ | ⟨_, hold⟩ := lookup_update.mp ht
    · exact ⟨cur, hcur, htoken⟩
    · exact ⟨t, hold, rfl⟩
  refine ⟨fun c t ht => ?_, fun c t ht => ?_, fun c c' t t' ht ht' heq => ?_⟩
  · obtain ⟨_, rfl⟩ | ⟨_, hold⟩ := lookup_update.mp ht
    · exact hlive
    · exact h.live c t hold
  · obtain ⟨old, hold, heq⟩ := htokens c t ht
    exact heq ▸ h.drawn c old hold
  · obtain ⟨old, hold, hsame⟩ := htokens c t ht
    obtain ⟨old', hold', hsame'⟩ := htokens c' t' ht'
    exact h.distinct c c' old old' hold hold' (hsame.symm.trans (heq.trans hsame'))

theorem LiveSub.of_grants {clock : U64} {grants grants' : Text → Option (U64 × U64)} {s : Sub}
    (h : LiveSub clock grants s) (hgrants : grants' s.token = grants s.token) : LiveSub clock grants' s := by
  refine ⟨fun hactive => ?_, fun hstate hgranted => h.inactive hstate ?_⟩
  · rw [hgrants]
    exact h.active hactive
  · rwa [Granted, hgrants] at hgranted

/-- A new sub under a fresh token. -/
theorem LiveRegistry.insert {clock : U64} {grants : Text → Option (U64 × U64)} {tokens : List Text} {reg : Registry}
    (h : LiveRegistry clock grants tokens reg) {s : Sub} (hfresh : s.token ∉ tokens)
    (hlive : LiveSub clock grants s) :
    LiveRegistry clock grants (tokens ++ [s.token]) (reg.insert s) := by
  refine ⟨fun c t ht => ?_, fun c t ht => ?_, fun c c' t t' ht ht' heq => ?_⟩
  · obtain ⟨_, rfl⟩ | ⟨_, hold⟩ := lookup_insert.mp ht
    · exact hlive
    · exact h.live c t hold
  · obtain ⟨_, rfl⟩ | ⟨_, hold⟩ := lookup_insert.mp ht
    · exact List.mem_append_right _ (List.mem_singleton_self _)
    · exact List.mem_append_left _ (h.drawn c t hold)
  · obtain ⟨rfl, rfl⟩ | ⟨_, hold⟩ := lookup_insert.mp ht <;>
      obtain ⟨rfl, rfl⟩ | ⟨_, hold'⟩ := lookup_insert.mp ht'
    · rfl
    · exact absurd (heq ▸ h.drawn c' t' hold') hfresh
    · exact absurd (heq ▸ h.drawn c t hold) hfresh
    · exact h.distinct c c' t t' hold hold' heq

theorem LiveRegistry.append_tokens {clock : U64} {grants : Text → Option (U64 × U64)} {tokens : List Text}
    {reg : Registry} (h : LiveRegistry clock grants tokens reg) (more : List Text) :
    LiveRegistry clock grants (tokens ++ more) reg :=
  ⟨h.live, fun c s hs => List.mem_append_left _ (h.drawn c s hs), h.distinct⟩

/-- A verification is written over the sub of its token. -/
theorem LiveRegistry.verify {clock : U64} {grants : Text → Option (U64 × U64)} {tokens : List Text} {reg : Registry}
    (h : LiveRegistry clock grants tokens reg) (hkeyed : reg.Keyed) {cid : Text} {cur : Sub}
    (hcur : reg.subs.lookup cid = some cur) (lease : U64) :
    LiveRegistry clock (Function.update grants cur.token (some (clock, lease))) tokens
      (reg.update (verified cur lease clock)) := by
  have hcid := hkeyed cid cur hcur
  subst hcid
  have hdrawn : ∀ c t, (reg.update (verified cur lease clock)).subs.lookup c = some t →
      ∃ old, reg.subs.lookup c = some old ∧ t.token = old.token := by
    intro c t ht
    obtain ⟨rfl, rfl⟩ | ⟨_, hold⟩ := lookup_update.mp ht
    · exact ⟨cur, hcur, rfl⟩
    · exact ⟨t, hold, rfl⟩
  refine ⟨fun c t ht => ?_, fun c t ht => ?_, fun c c' t t' ht ht' heq => ?_⟩
  · obtain ⟨_, rfl⟩ | ⟨hne, hold⟩ := lookup_update.mp ht
    · refine ⟨fun _ => ⟨clock, lease, Function.update_self _ _ _, rfl⟩, fun hstate => absurd rfl hstate⟩
    · refine (h.live c t hold).of_grants (Function.update_of_ne (fun heq => hne ?_) _ _)
      exact h.distinct _ _ t cur hold hcur heq
  · obtain ⟨old, hold, heq⟩ := hdrawn c t ht
    exact heq ▸ h.drawn c old hold
  · obtain ⟨old, hold, hsame⟩ := hdrawn c t ht
    obtain ⟨old', hold', hsame'⟩ := hdrawn c' t' ht'
    exact h.distinct c c' old old' hold hold' (hsame.symm.trans (heq.trans hsame'))

theorem LiveRegistry.expire {clock now : U64} (hnow : now ≤ clock) {grants : Text → Option (U64 × U64)}
    {tokens : List Text} {reg reg' : Registry} (h : LiveRegistry clock grants tokens reg) (hkeyed : reg.Keyed)
    (hexpire : expire_lapsed reg now = some reg') : LiveRegistry clock grants tokens reg' := by
  have hold : ∀ c t, reg'.subs.lookup c = some t →
      ∃ old, reg.subs.lookup c = some old ∧ t = if lapsed now old then demoted old else old := by
    intro c t ht
    rw [expire_lapsed_spec hkeyed hexpire] at ht
    obtain ⟨old, hold, rfl⟩ := Option.map_eq_some_iff.mp ht
    exact ⟨old, hold, rfl⟩
  have htoken : ∀ old : Sub, (if lapsed now old then demoted old else old).token = old.token := fun old => by
    split <;> rfl
  refine ⟨fun c t ht => ?_, fun c t ht => ?_, fun c c' t t' ht ht' heq => ?_⟩
  · obtain ⟨old, hreg, rfl⟩ := hold c t ht
    split
    · rename_i hlapsed
      simp only [lapsed, Sub.lease_expired, Bool.and_eq_true, decide_eq_true_eq] at hlapsed
      obtain ⟨hactive, _, hended⟩ := hlapsed
      refine ⟨fun hstate => absurd hstate (show subs.expired ≠ subs.active by decide), fun _ hgranted => ?_⟩
      obtain ⟨t, lease, hgrant, hexpires⟩ := (h.live c old hreg).active hactive
      obtain ⟨t', lease', hgrant', hlt⟩ := hgranted
      rw [show (demoted old).token = old.token from rfl, hgrant, Option.some.injEq, Prod.mk.injEq] at hgrant'
      obtain ⟨rfl, rfl⟩ := hgrant'
      rw [hexpires] at hended
      exact absurd (hended.trans hnow) (not_le.mpr hlt)
    · exact h.live c old hreg
  · obtain ⟨old, hreg, rfl⟩ := hold c t ht
    rw [htoken]
    exact h.drawn c old hreg
  · obtain ⟨old, hreg, rfl⟩ := hold c t ht
    obtain ⟨old', hreg', rfl⟩ := hold c' t' ht'
    rw [htoken, htoken] at heq
    exact h.distinct c c' old old' hreg hreg' heq

theorem LiveRegistry.remove {clock now : U64} {grants : Text → Option (U64 × U64)} {tokens : List Text}
    {reg reg' : Registry} (h : LiveRegistry clock grants tokens reg) {cid : Text}
    (hremove : reg.remove cid now = some reg') : LiveRegistry clock grants tokens reg' :=
  ⟨fun c s hs => h.live c s ((lookup_remove hremove).mp hs).2,
    fun c s hs => h.drawn c s ((lookup_remove hremove).mp hs).2,
    fun c c' s s' hs hs' =>
      h.distinct c c' s s' ((lookup_remove hremove).mp hs).2 ((lookup_remove hremove).mp hs').2⟩

/-- Every subscription is accounted for, in memory and on disk, and no copy in the hands
of a thread can bring a lapsed one back. -/
structure Accounted (cfg : Config) (epoch : U64) (s : Server) : Prop where
  sound : Sound epoch s
  memory : LiveRegistry s.clock s.grants s.tokens s.reg
  stored : LiveRegistry s.clock s.grants s.tokens (.load s.disk)
  granted : ∀ token t lease, s.grants token = some (t, lease) → token ∈ s.tokens ∧ lease ≤ max cfg.lease_seconds 1
  drawn : ∀ sub ∈ s.snapshots, sub.token ∈ s.tokens
  inflight : ∀ sub ∈ s.snapshots, sub.state = active → ∀ cur, s.reg.subs.lookup sub.channel_id = some cur →
    cur.token = sub.token → cur.state = active
  subscribing : ∀ holder sub adds removes, s.reconcile_lock = some (holder, .subscribing sub adds removes) →
    sub.state = pending

/-- The sub that a reconcile has registered stays as it was made until the hub answers. -/
theorem Progress.subscribing {s s' : Server} {a : Action} (h : Progress s a s')
    (hs : ∀ holder sub adds removes, s.reconcile_lock = some (holder, .subscribing sub adds removes) →
      sub.state = pending) :
    ∀ holder sub adds removes, s'.reconcile_lock = some (holder, .subscribing sub adds removes) →
      sub.state = pending := by
  intro holder sub adds removes hlock
  cases h with
  | other lock channels last_read => exact hs holder sub adds removes (lock ▸ hlock)
  | taken holder free lock channels last_read => simp [lock] at hlock
  | read holder readable fetch content action file held lock channels last_read same => simp [lock] at hlock
  | diff holder desired complete removes action held removed lock channels last_read => simp [lock] at hlock
  | insert holder cid token secret now adds removes held lock channels last_read =>
    rw [lock] at hlock
    cases hlock
    rfl
  | answer holder sub adds removes held lock channels last_read => simp [lock] at hlock
  | unsubscribe holder sub removes held lock channels last_read => simp [lock] at hlock
  | remove holder sub removes action held lock channels last_read => simp [lock] at hlock
  | finish holder held lock channels last_read => simp [lock] at hlock
  | restart action lock last_read renewal => simp [lock] at hlock

/-- Writing an answer back over an active sub keeps its activation, and writing one back
over any other sub does not activate it. -/
theorem LiveSub.write_back {clock : U64} {grants : Text → Option (U64 × U64)} {before after cur : Sub}
    (h : LiveSub clock grants cur) (houtcome : Outcome clock before after) (htoken : cur.token = after.token)
    (hbefore : before.state = subs.active → cur.state = subs.active) :
    LiveSub clock grants (write_back cur after) := by
  unfold renew.write_back
  split
  · rename_i hactive
    refine ⟨fun _ => ?_, fun hstate => absurd rfl hstate⟩
    rw [← htoken]
    exact h.active hactive
  · rename_i hinactive
    refine ⟨fun hactive => ?_, fun _ hgranted => h.inactive hinactive (htoken ▸ hgranted)⟩
    obtain hstate | hstate | ⟨hstate, _⟩ := houtcome.state
    · exact absurd (hactive.symm.trans hstate) (by decide)
    · exact absurd (hactive.symm.trans hstate) (by decide)
    · exact absurd (hbefore hstate) hinactive

theorem write_back_active {cur s : Sub} (h : cur.state = active) : (write_back cur s).state = active := by
  rw [renew.write_back, if_pos h]

theorem LiveRegistry.stored {clock : U64} {grants : Text → Option (U64 × U64)} {tokens : List Text} {s' : Server}
    {reg : Registry} (h : LiveRegistry clock grants tokens reg) (hsaved : Saved s' reg)
    (hsound : SoundRegistry epoch clock reg) : LiveRegistry clock grants tokens (.load s'.disk) :=
  h.of_lookup fun c => hsaved.lookup hsound c

/-- While the renewal thread demotes the lapsed leases it holds no copies, and a copy
that a reconcile holds was never active. -/
theorem Accounted.expiring {cfg : Config} {s : Server} (h : Accounted cfg epoch s) {last_sig : U64 × Nat} {now : U64}
    (hpc : s.renewal = .expiring last_sig now) : ∀ sub ∈ s.snapshots, sub.state ≠ active := by
  intro sub hsub hactive
  simp only [Server.snapshots, hpc, Renewal.snapshots, List.append_nil] at hsub
  cases hlock : s.reconcile_lock with
  | none => simp [hlock] at hsub
  | some held =>
    obtain ⟨holder, stage⟩ := held
    rw [hlock, Option.elim_some] at hsub
    cases stage <;> simp only [Stage.snapshots, List.not_mem_nil, List.mem_singleton] at hsub
    subst hsub
    exact absurd (hactive.symm.trans (h.subscribing _ _ _ _ hlock)) (by decide)

/-- A saved registry that is accounted for, and in which the copies are still no more
active than what is stored. -/
theorem Accounted.of_saved {cfg : Config} {s s' : Server} {reg : Registry} (h : Accounted cfg epoch s)
    (hsound : Sound epoch s')
    (hclock : s'.clock = s.clock) (htokens : s'.tokens = s.tokens) (hsnapshots : s'.snapshots ⊆ s.snapshots)
    (hsaved : Saved s' reg) (hmemory : LiveRegistry s.clock s'.grants s.tokens reg)
    (hgranted : ∀ token t lease, s'.grants token = some (t, lease) → token ∈ s.tokens ∧ lease ≤ max cfg.lease_seconds 1)
    (hinflight : ∀ sub ∈ s.snapshots, sub.state = active → ∀ cur, reg.subs.lookup sub.channel_id = some cur →
      cur.token = sub.token → cur.state = active)
    (hsubscribing : ∀ holder sub adds removes, s'.reconcile_lock = some (holder, .subscribing sub adds removes) →
      sub.state = pending) : Accounted cfg epoch s' := by
  obtain ⟨hreg, _⟩ := id hsaved
  subst hreg
  refine ⟨hsound, ?_, ?_, ?_, ?_, fun sub hsub => hinflight sub (hsnapshots hsub), hsubscribing⟩
  · rw [hclock, htokens]
    exact hmemory
  · rw [hclock, htokens]
    exact hmemory.stored hsaved (hclock ▸ hsound.memory)
  · rw [htokens]
    exact hgranted
  · rw [htokens]
    exact fun sub hsub => h.drawn sub (hsnapshots hsub)

theorem step_accounted {cfg : Config} {s s' : Server} {a : Action} (h : Accounted cfg epoch s)
    (hstep : step cfg s a = some s') : Accounted cfg epoch s' := by
  have hsound' := step_sound h.sound hstep
  have hsubscribing := (step_progress h.sound.memory.keyed hstep).subscribing h.subscribing
  cases step_effect hstep with
  | quiet clock reg disk grants tokens snapshots =>
    have hcopies : ∀ sub ∈ s'.snapshots, sub.token ∈ s.tokens ∧ (sub.state = active →
        ∀ cur, s.reg.subs.lookup sub.channel_id = some cur → cur.token = sub.token → cur.state = active) := by
      intro sub hsub
      obtain hold | hvalue | ⟨old, hold, rfl⟩ := snapshots sub hsub
      · exact ⟨h.drawn sub hold, h.inflight sub hold⟩
      · obtain ⟨c, hc⟩ := mem_values.mp hvalue
        refine ⟨h.memory.drawn c sub hc, fun hactive cur hcur _ => ?_⟩
        rw [h.sound.memory.keyed c sub hc, hc, Option.some.injEq] at hcur
        exact hcur ▸ hactive
      · exact ⟨h.drawn old hold, h.inflight old hold⟩
    refine ⟨hsound', ?_, ?_, ?_, fun sub hsub => tokens ▸ (hcopies sub hsub).1, ?_, hsubscribing⟩
    · rw [grants, tokens]
      exact (h.memory.mono clock).of_lookup fun c => by rw [reg]
    · rw [grants, tokens, disk]
      exact h.stored.mono clock
    · rw [grants, tokens]
      exact h.granted
    · rw [reg]
      exact fun sub hsub => (hcopies sub hsub).2
  | insert cid token secret now holder adds removes action held time fresh clock reg disk grants tokens snapshots =>
    have hlive : LiveSub s.clock s.grants (new_sub cid token secret now) :=
      ⟨fun hactive => absurd hactive (show pending ≠ active by decide), fun _ ⟨t, lease, hgrant, _⟩ =>
        fresh (h.granted _ t lease hgrant).1⟩
    refine ⟨hsound', ?_, ?_, ?_, ?_, ?_, hsubscribing⟩
    · rw [clock, grants, tokens, reg]
      exact h.memory.insert fresh hlive
    · rw [clock, grants, tokens, disk]
      exact h.stored.append_tokens _
    · rw [grants, tokens]
      exact fun tok t lease hgrant => (h.granted tok t lease hgrant).imp_left (List.mem_append_left _)
    · rw [tokens]
      intro sub hsub
      obtain hold | rfl := snapshots sub hsub
      · exact List.mem_append_left _ (h.drawn sub hold)
      · exact List.mem_append_right _ (List.mem_singleton_self _)
    · rw [reg]
      intro sub hsub hactive cur hcur htoken
      obtain hold | rfl := snapshots sub hsub
      · obtain ⟨_, rfl⟩ | ⟨_, hcur⟩ := lookup_insert.mp hcur
        · exact absurd (htoken ▸ h.drawn sub hold) fresh
        · exact h.inflight sub hold hactive cur hcur htoken
      · exact absurd hactive (show pending ≠ active by decide)
  | merge before after cur action snapshot outcome stored same clock saved grants tokens snapshots =>
    have hcopy := h.inflight before snapshot
    rw [← outcome.channel_id, ← outcome.token] at hcopy
    have hlive := (h.memory.live _ cur stored).write_back outcome same fun hactive => hcopy hactive cur stored same
    refine h.of_saved hsound' clock tokens snapshots saved ?_ (grants ▸ h.granted) ?_ hsubscribing
    · rw [grants]
      exact h.memory.update (by rwa [write_back_channel_id]) ((write_back_token cur after).trans same.symm) hlive
    · intro sub hsub hactive new hnew htoken
      obtain ⟨hchannel, rfl⟩ | ⟨_, hnew⟩ := lookup_update.mp hnew
      · rw [write_back_channel_id] at hchannel
        rw [write_back_token] at htoken
        refine write_back_active (h.inflight sub hsub hactive cur ?_ (same.trans htoken))
        rw [hchannel]
        exact stored
      · exact h.inflight sub hsub hactive new hnew htoken
  | verify cid cur lease action stored capped clock saved grants tokens snapshots =>
    refine h.of_saved hsound' clock tokens snapshots saved ?_ ?_ ?_ hsubscribing
    · rw [grants]
      exact h.memory.verify h.sound.memory.keyed stored lease
    · rw [grants]
      intro token t granted hgrant
      rw [Function.update_apply] at hgrant
      split at hgrant
      · rename_i htoken
        cases hgrant
        exact ⟨htoken ▸ h.memory.drawn cid cur stored, capped⟩
      · exact h.granted token t granted hgrant
    · intro sub hsub hactive new hnew htoken
      obtain ⟨_, rfl⟩ | ⟨_, hnew⟩ := lookup_update.mp hnew
      · rfl
      · exact h.inflight sub hsub hactive new hnew htoken
  | expire now last_sig action pc reg lapsed clock saved grants tokens snapshots =>
    refine h.of_saved hsound' clock tokens snapshots saved ?_ (grants ▸ h.granted) ?_ hsubscribing
    · rw [grants]
      exact h.memory.expire (h.sound.past now (pc ▸ rfl)) h.sound.memory.keyed lapsed
    · exact fun sub hsub hactive => absurd hactive (h.expiring pc sub hsub)
  | remove holder sub removes action held reg clock disk grants tokens snapshots =>
    refine ⟨hsound', ?_, ?_, ?_, fun sub hsub => tokens ▸ h.drawn sub (snapshots hsub), ?_, hsubscribing⟩
    · rw [clock, grants, tokens]
      exact h.memory.remove reg
    · rw [clock, grants, tokens, disk]
      exact h.stored
    · rw [grants, tokens]
      exact h.granted
    · exact fun sub hsub hactive cur hcur => h.inflight sub (snapshots hsub) hactive cur ((lookup_remove reg).mp hcur).2
  | forget i token now challenge action confirming clock reg disk grants tokens snapshots =>
    refine ⟨hsound', ?_, ?_, ?_, fun sub hsub => tokens ▸ h.drawn sub (snapshots hsub), ?_, hsubscribing⟩
    · rw [clock, grants, tokens, reg]
      exact h.memory.of_lookup fun c => rfl
    · rw [clock, grants, tokens, disk]
      exact h.stored
    · rw [grants, tokens]
      exact h.granted
    · rw [reg]
      exact fun sub hsub => h.inflight sub (snapshots hsub)
  | save action clock saved grants tokens snapshots =>
    exact h.of_saved hsound' clock tokens snapshots saved (grants ▸ h.memory)
      (grants ▸ h.granted) h.inflight hsubscribing
  | restart cache action clock reg disk grants tokens snapshots =>
    refine ⟨hsound', ?_, ?_, ?_, ?_, ?_, hsubscribing⟩
    · rw [clock, grants, tokens, reg]
      exact h.stored
    · rw [clock, grants, tokens, disk]
      exact h.stored
    · rw [grants, tokens]
      exact h.granted
    · rw [snapshots]
      exact fun sub hsub => absurd hsub List.not_mem_nil
    · rw [snapshots]
      exact fun sub hsub => absurd hsub List.not_mem_nil

theorem Accounted.init (cfg : Config) (clock : U64) (file : Option ChannelsFile) (cache : HashMap Text Text) :
    Accounted cfg clock (.init clock file cache) where
  sound := .init clock file cache
  memory := ⟨fun c s hs => by simp [Server.init, Registry.empty] at hs,
    fun c s hs => by simp [Server.init, Registry.empty] at hs,
    fun c c' s s' hs => by simp [Server.init, Registry.empty] at hs⟩
  stored := ⟨fun c s hs => by simp [Server.init, Registry.load, Registry.empty] at hs,
    fun c s hs => by simp [Server.init, Registry.load, Registry.empty] at hs,
    fun c c' s s' hs => by simp [Server.init, Registry.load, Registry.empty] at hs⟩
  granted := by simp [Server.init]
  drawn := by simp [Server.init, Server.snapshots, Renewal.snapshots]
  inflight := by simp [Server.init, Server.snapshots, Renewal.snapshots]
  subscribing := by simp [Server.init]

theorem accounted_of_run {cfg : Config} {clock : U64} {file : Option ChannelsFile}
    {cache : HashMap Text Text} {actions : List Action} {s : Server}
    (hrun : machine.Run (step cfg) (.init clock file cache) actions s) : Accounted cfg clock s :=
  hrun.invariant (Accounted cfg clock) (fun _ _ _ => step_accounted) (.init cfg clock file cache)

instance (grants : Text → Option (U64 × U64)) (token : Text) (now : U64) : Decidable (Granted grants token now) :=
  match hgrant : grants token with
  | some (t, lease) =>
    decidable_of_iff (now < saturating_add t lease) (by simp [Granted, hgrant])
  | none => isFalse (by simp [Granted, hgrant])

theorem count_subs_active (now : U64) (h : Health) (s : Sub) :
    (h.count now s).subs_active = h.subs_active + if is_live now s then 1 else 0 := by
  unfold Health.count
  by_cases hlive : is_live now s = true
  · rw [if_pos hlive]
    simp only [is_live, Bool.and_eq_true, decide_eq_true_eq, Bool.not_eq_true'] at hlive
    rw [if_pos hlive]
  · rw [if_neg hlive]
    simp only [is_live, Bool.and_eq_true, decide_eq_true_eq, Bool.not_eq_true'] at hlive
    rw [if_neg hlive]
    split
    · rfl
    · split <;> rfl

theorem foldl_subs_active (now : U64) (subs : List Sub) (h : Health) :
    (subs.foldl (Health.count now) h).subs_active = h.subs_active + (subs.filter (is_live now)).length := by
  induction subs generalizing h with
  | nil => rfl
  | cons s subs ih =>
    rw [List.foldl_cons, ih, count_subs_active, List.filter_cons]
    split
    · rw [List.length_cons]
      omega
    · rw [Nat.add_zero]

/-- The health endpoint counts as active what the renewal thread counts as live. -/
theorem health_subs_active (reg : Registry) (now : U64) : (health reg now).subs_active = live_count reg now := by
  rw [health, foldl_subs_active, Nat.zero_add, live_count]

/-- A subscription counts as live exactly while the lease of its latest verification lasts. -/
theorem live_iff_granted {cfg : Config} {clock : U64} (hclock : 0 < clock) {file : Option ChannelsFile}
    {cache : HashMap Text Text} {actions : List Action} {s : Server}
    (hrun : machine.Run (step cfg) (.init clock file cache) actions s) {now : U64} (hnow : s.clock ≤ now) :
    (∀ c sub, s.reg.subs.lookup c = some sub → (is_live now sub = true ↔ Granted s.grants sub.token now)) ∧
      live_count s.reg now = ((values s.reg.subs).filter fun sub => Granted s.grants sub.token now).length ∧
      (health s.reg now).subs_active = live_count s.reg now ∧
      ∀ token t lease, s.grants token = some (t, lease) → lease ≤ max cfg.lease_seconds 1 := by
  have haccounted := accounted_of_run hrun
  have hlive : ∀ c sub, s.reg.subs.lookup c = some sub →
      (is_live now sub = true ↔ Granted s.grants sub.token now) := fun c sub hsub =>
    (haccounted.memory.live c sub hsub).is_live_iff
      (fun hactive => hclock.trans_le ((haccounted.sound.memory.sound c sub hsub).active_expires hactive)) hnow
  refine ⟨hlive, ?_, health_subs_active s.reg now,
    fun token t lease hgrant => (haccounted.granted token t lease hgrant).2⟩
  rw [live_count]
  refine congrArg List.length (List.filter_congr fun sub hsub => ?_)
  obtain ⟨c, hc⟩ := mem_values.mp hsub
  rw [Bool.eq_iff_iff, decide_eq_true_eq]
  exact hlive c sub hc

/-- The hub verifies the subscription of the startup for one hundred seconds. -/
def verifyQuery : Text :=
  "hub.mode=subscribe&hub.challenge=x&hub.lease_seconds=100&hub.topic=".toList ++ firstSub.topic

def verifiedActions : List Action :=
  startupActions ++ [.get_lookup firstSub.token verifyQuery, .get_verify 0 [verified firstSub 100 1]]

theorem live_iff_granted_verified :
    ∃ s, machine.Run (step ⟨864000⟩) (.init 1 (some oneChannelFile) ∅) verifiedActions s ∧
      live_count s.reg 100 = ((values s.reg.subs).filter fun sub => Granted s.grants sub.token 100).length := by
  have hrun : machine.Run (step ⟨864000⟩) (.init 1 (some oneChannelFile) ∅) verifiedActions _ := rfl
  exact ⟨_, hrun, (live_iff_granted (by decide) hrun (by decide)).2.1⟩

end yt_websub.server
