import YtWebsub.Server.Tracking

open rust rust.utf8 rust.text rust.num rust.map
open yt_websub.subs yt_websub.renew yt_websub.callback

namespace yt_websub.server

variable {epoch : U64}

/-- A subscription will not be due before the cooldown that began at time `t` is over. -/
def Rested (clock t : U64) (s : Sub) : Prop :=
  t.val + RENEW_COOLDOWN ≤ clock.val ∨ t.val + RENEW_COOLDOWN ≤ s.next_attempt_at.val ∨
    (s.state = active ∧ t.val + RENEW_COOLDOWN + RENEW_LEAD ≤ s.expires_at.val)

theorem Rested.mono {clock clock' t : U64} (hle : clock ≤ clock') {s : Sub} (h : Rested clock t s) :
    Rested clock' t s :=
  h.imp_left fun hpast => hpast.trans (Fin.le_def.mp hle)

/-- What is due has rested. -/
theorem Rested.due {clock now t : U64} {s : Sub} (h : Rested clock t s) (hnow : now ≤ clock)
    (hdue : is_due now s = some true) : t.val + RENEW_COOLDOWN ≤ clock.val := by
  have hle := Fin.le_def.mp hnow
  have hready : s.next_attempt_at.val ≤ now.val := by
    by_contra hearly
    rw [is_due, if_pos (Fin.lt_def.mpr (not_le.mp hearly))] at hdue
    cases hdue
  obtain hpast | hnext | ⟨hactive, hlease⟩ := h
  · exact hpast
  · omega
  · rw [is_due, if_neg (not_lt.mpr (Fin.le_def.mpr hready)), if_pos hactive] at hdue
    split at hdue
    · obtain ⟨horizon, hhorizon, hnear⟩ := Option.map_eq_some_iff.mp hdue
      have hval := checked_add_eq_some.mp hhorizon
      rw [decide_eq_true_eq, Fin.le_def] at hnear
      omega
    · cases hdue

/-- A lease that kept a subscription rested has not run out before the cooldown has. -/
theorem Rested.expire {clock now t : U64} {s : Sub} (h : Rested clock t s) (hnow : now ≤ clock) :
    Rested clock t (if lapsed now s then demoted s else s) := by
  split
  · rename_i hlapsed
    obtain hpast | hnext | ⟨_, hlease⟩ := h
    · exact Or.inl hpast
    · exact Or.inr (Or.inl hnext)
    · left
      simp only [lapsed, Sub.lease_expired, Bool.and_eq_true, decide_eq_true_eq] at hlapsed
      have hexpired := Fin.le_def.mp hlapsed.2.2
      have hle := Fin.le_def.mp hnow
      omega
  · exact h

/-- The cooldown of the token, if one has begun, is over by some time. -/
def CooledBy (h : History) (token : Text) (time : Nat) : Prop :=
  ∀ t, h.accepted token = some t → t.val + RENEW_COOLDOWN ≤ time

/-- The renewal thread sends no subscribe request during the cooldown of its token. -/
def RespectsCooldown (sh : Server × History) : Action → Prop
  | .renewal_send =>
    match sh.1.renewal with
    | .renewing _ (sub :: _) => CooledBy sh.2 sub.token sh.1.clock
    | _ => True
  | _ => True

/-- What is written over a subscription during its cooldown does not make it due before the
end: a verification grants a lease that comes within `RENEW_LEAD` of its own end only after
it, and the refusal of a reconcile's own request is backed off until then. -/
def Spaced (cfg : Config) (sh : Server × History) : Action → Prop
  | .get_verify i _ =>
    match sh.1.gets[i]? with
    | some (.found sub query) =>
      let expires_at := saturating_add sh.1.clock (granted_lease cfg.lease_seconds query)
      ∀ cur ∈ (handle_verify sub query).1.bind fun cid => sh.1.reg.subs.lookup cid,
        CooledBy sh.2 cur.token sh.1.clock ∨ CooledBy sh.2 cur.token (expires_at.val - RENEW_LEAD)
    | _ => True
  | .reconcile_answer res now drawn _ =>
    match sh.1.reconcile_lock, verdict res with
    | some (_, .subscribing sub _ _), some _ =>
      CooledBy sh.2 sub.token sh.1.clock ∨ CooledBy sh.2 sub.token (now.val + backoff 1 drawn)
    | _, _ => True
  | _ => True

/-- The cooldowns that the renewal thread has begun are kept. -/
structure Cooling (cfg : Config) (epoch : U64) (s : Server) (h : History) : Prop extends Tracked cfg epoch s h where
  begun : ∀ token t, h.accepted token = some t → token ∈ s.tokens
  resting : ∀ c cur, s.reg.subs.lookup c = some cur → ∀ t, h.accepted cur.token = some t → Rested s.clock t cur
  waiting : ∀ sub ∈ s.renewal.snapshots, CooledBy h sub.token s.clock
  distinct : (s.renewal.snapshots.map Sub.token).Nodup

/-- Only an answer to the renewal thread begins a cooldown, and only a restart forgets one. -/
theorem record_accepted (h : History) (s : Server) {a : Action}
    (hanswer : ∀ res now drawn order, a ≠ .renewal_answer res now drawn order)
    (hrestart : ∀ cache, a ≠ .restart cache) : (h.record s a).accepted = h.accepted := by
  cases a with
  | renewal_answer res now drawn order => exact absurd rfl (hanswer res now drawn order)
  | restart cache => exact absurd rfl (hrestart cache)
  | _ =>
    simp only [History.record]
    repeat' split
    all_goals rfl

/-- A stored subscription is replaced by one that has rested. -/
theorem Cooling.update {cfg : Config} {s : Server} {h : History} (hs : Cooling cfg epoch s h) {new : Sub}
    (hnew : ∀ t, h.accepted new.token = some t → Rested s.clock t new)
    {c : Text} {cur : Sub} (hcur : (s.reg.update new).subs.lookup c = some cur) {t : U64}
    (ht : h.accepted cur.token = some t) : Rested s.clock t cur := by
  obtain ⟨_, rfl⟩ | ⟨_, hcur⟩ := lookup_update.mp hcur
  · exact hnew t ht
  · exact hs.resting c cur hcur t ht

/-- The critical section of `merge_attempt`, where the subscription is still stored. -/
theorem merge_stored {s s' : Server} {sub cur : Sub} {order : List Sub} (h : s.merge sub order = some s')
    (hcur : s.reg.subs.lookup sub.channel_id = some cur) (htoken : cur.token = sub.token) :
    s'.reg = s.reg.update (write_back cur sub) := by
  simp only [Server.merge, merge_attempt, hcur, htoken, ne_eq, not_true_eq_false, if_false] at h
  obtain ⟨_, _, rfl⟩ := save_spec h
  rfl

theorem write_back_next_attempt_at (cur s : Sub) : (write_back cur s).next_attempt_at = s.next_attempt_at := by
  unfold write_back
  split <;> rfl

theorem attempted_next_attempt_at {s after : Sub} {now drawn : U64} (h : attempted s none now drawn = some after) :
    after.next_attempt_at.val = now.val + RENEW_COOLDOWN := by
  simp only [attempted] at h
  obtain ⟨next_attempt_at, hnext, rfl⟩ := Option.map_eq_some_iff.mp h
  exact checked_add_eq_some.mp hnext

/-- The refusal of a reconcile's own request. -/
theorem Cooling.refuse {cfg : Config} {s s' : Server} {h : History} (hs : Cooling cfg epoch s h)
    {res : Except Text (Fin (2 ^ 16))} {now drawn : U64} {order : List Sub}
    (hspaced : Spaced cfg (s, h) (.reconcile_answer res now drawn order))
    (hstep : step cfg s (.reconcile_answer res now drawn order) = some s') {c : Text} {cur : Sub}
    (hcur : s'.reg.subs.lookup c = some cur) {t : U64} (ht : h.accepted cur.token = some t) :
    Rested s.clock t cur := by
  simp only [step] at hstep
  split at hstep
  · rename_i holder sub adds removes hlock
    split at hstep
    · cases hstep
      exact hs.resting c cur hcur t ht
    · rename_i why hwhy
      split at hstep
      · obtain ⟨after, hafter, hmerge⟩ := Option.bind_eq_some_iff.mp hstep
        obtain rfl | ⟨stored, _, hstored, _, _, rfl⟩ := merge_spec hmerge
        · exact hs.resting c cur hcur t ht
        · refine hs.update (fun t ht => ?_) hcur ht
          simp only [Spaced, hlock, hwhy] at hspaced
          obtain ⟨next_attempt_at, hnext, rfl⟩ := Option.map_eq_some_iff.mp hafter
          rw [write_back_token] at ht
          obtain hpast | hbackoff := hspaced
          · exact Or.inl (hpast t ht)
          · refine Or.inr (Or.inl ?_)
            rw [write_back_next_attempt_at, checked_add_eq_some.mp hnext]
            exact hbackoff t ht
      · cases hstep
  · cases hstep

/-- A verification grants a lease. -/
theorem Cooling.grant {cfg : Config} {s s' : Server} {h : History} (hs : Cooling cfg epoch s h) {i : Nat}
    {order : List Sub} (hspaced : Spaced cfg (s, h) (.get_verify i order))
    (hstep : step cfg s (.get_verify i order) = some s') {c : Text} {cur : Sub}
    (hcur : s'.reg.subs.lookup c = some cur) {t : U64} (ht : h.accepted cur.token = some t) :
    Rested s.clock t cur := by
  simp only [step] at hstep
  split at hstep
  · rename_i sub query hfound
    simp only [Spaced, hfound] at hspaced
    split at hstep
    · cases hstep
      exact hs.resting c cur hcur t ht
    · rename_i old htarget
      obtain ⟨cid, _, hold⟩ := Option.bind_eq_some_iff.mp htarget
      obtain ⟨_, _, rfl⟩ := save_spec hstep
      refine hs.update (fun t ht => ?_) hcur ht
      obtain hpast | hlease := hspaced old htarget
      · exact Or.inl (hpast t ht)
      · have hreaches := hlease t ht
        refine Or.inr (Or.inr ⟨rfl, ?_⟩)
        simp only [RENEW_COOLDOWN, RENEW_LEAD, verified] at hreaches ⊢
        omega
  · cases hstep

/-- What a subscription becomes that no answer and no verification is written to. -/
theorem Cooling.resting_step {cfg : Config} {s s' : Server} {h : History} {a : Action} (hs : Cooling cfg epoch s h)
    (hspaced : Spaced cfg (s, h) a) (hstep : step cfg s a = some s')
    (hanswer : ∀ res now drawn order, a ≠ .renewal_answer res now drawn order)
    (hrestart : ∀ cache, a ≠ .restart cache)
    {c : Text} {cur : Sub} (hcur : s'.reg.subs.lookup c = some cur) {t : U64} (ht : h.accepted cur.token = some t) :
    Rested s'.clock t cur := by
  refine Rested.mono (step_clock hstep) ?_
  cases step_effect hstep with
  | quiet clock reg disk grants tokens snapshots => exact hs.resting c cur (reg ▸ hcur) t ht
  | insert cid token secret now holder adds removes action held time fresh clock reg disk grants tokens snapshots =>
    rw [reg] at hcur
    obtain ⟨_, rfl⟩ | ⟨_, hcur⟩ := lookup_insert.mp hcur
    · exact absurd (hs.begun _ t ht) fresh
    · exact hs.resting c cur hcur t ht
  | merge before after old action snapshot outcome stored same clock saved grants tokens snapshots =>
    cases a with
    | reconcile_answer res now drawn order => exact hs.refuse hspaced hstep hcur ht
    | renewal_answer res now drawn order => exact absurd rfl (hanswer res now drawn order)
    | _ => cases action
  | verify cid old lease action stored capped clock saved grants tokens snapshots =>
    obtain ⟨i, order, rfl⟩ := action
    exact hs.grant hspaced hstep hcur ht
  | expire now last_sig action pc reg lapsed clock saved grants tokens snapshots =>
    rw [saved.1, expire_lapsed_spec hs.consistent.memory.keyed lapsed] at hcur
    obtain ⟨old, hold, rfl⟩ := Option.map_eq_some_iff.mp hcur
    refine (hs.resting c old hold t ?_).expire (hs.consistent.accounted.sound.past now (pc ▸ rfl))
    rw [← ht]
    split <;> rfl
  | remove holder sub removes action held reg clock disk grants tokens snapshots =>
    exact hs.resting c cur ((lookup_remove reg).mp hcur).2 t ht
  | forget i token now challenge action confirming clock reg disk grants tokens snapshots =>
    rw [reg] at hcur
    exact hs.resting c cur hcur t ht
  | save action clock saved grants tokens snapshots => exact hs.resting c cur (saved.1 ▸ hcur) t ht
  | restart cache action clock reg disk grants tokens snapshots => exact absurd action (hrestart cache)

/-- The copies that a pass works through have rested, and their tokens differ. -/
theorem Cooling.waiting_step {cfg : Config} {s s' : Server} {h : History} {a : Action} (hs : Cooling cfg epoch s h)
    (hstep : step cfg s a = some s') :
    (s'.renewal.snapshots.map Sub.token).Nodup ∧
      ∀ sub ∈ s'.renewal.snapshots, CooledBy h sub.token s'.clock := by
  have hclock := Fin.le_def.mp (step_clock hstep)
  cases step_pass hstep with
  | other snapshots now =>
    exact ⟨hs.distinct.sublist (snapshots.map _), fun sub hsub t ht =>
      (hs.waiting sub (snapshots.subset hsub) t ht).trans hclock⟩
  | select last_sig now order action pc perm chosen done =>
    refine ⟨?_, fun sub hsub t ht => ?_⟩
    · exact ((perm.map _).nodup_iff.mpr hs.consistent.memory.nodup_tokens).sublist ((candidates_sublist chosen).map _)
    · obtain ⟨hmem, hdue⟩ := (mem_candidates chosen sub).mp hsub
      obtain ⟨c, hc⟩ := mem_values.mp (perm.mem_iff.mp hmem)
      have hnow := hs.consistent.accounted.sound.past now (pc ▸ rfl)
      exact ((hs.resting c sub hc t ht).due hnow hdue).trans hclock
  | send last_sig sub candidates action pc sent =>
    have hdistinct := hs.distinct
    have hwaiting := hs.waiting
    rw [pc] at hdistinct hwaiting
    rw [sent]
    obtain ⟨hfirst, hrest⟩ := List.forall_mem_cons.mp hwaiting
    refine ⟨hdistinct, List.forall_mem_cons.mpr ⟨fun t ht => ?_, fun other hother t ht => ?_⟩⟩
    · exact (hfirst t ht).trans hclock
    · exact (hrest other hother t ht).trans hclock

theorem renewal_answer_spec {cfg : Config} {s s' : Server} {res : Except Text (Fin (2 ^ 16))} {now drawn : U64}
    {order : List Sub} (hstep : step cfg s (.renewal_answer res now drawn order) = some s') :
    ∃ last_sig sub candidates after, s.renewal = .sending last_sig sub candidates ∧ now ≤ s.clock ∧
      attempted sub (verdict res) now drawn = some after ∧
      ({ s with renewal := .renewing last_sig candidates } : Server).merge after order = some s' := by
  simp only [step] at hstep
  split at hstep
  · rename_i last_sig sub candidates hrenewal
    split at hstep
    · rename_i htime
      obtain ⟨after, hafter, hmerge⟩ := Option.bind_eq_some_iff.mp hstep
      exact ⟨last_sig, sub, candidates, after, hrenewal, htime.2, hafter, hmerge⟩
    · cases hstep
  · cases hstep

/-- The answer of the hub to the renewal thread. -/
theorem Cooling.answer {cfg : Config} {s s' : Server} {h : History} (hs : Cooling cfg epoch s h)
    {res : Except Text (Fin (2 ^ 16))} {now drawn : U64} {order : List Sub}
    (hstep : step cfg s (.renewal_answer res now drawn order) = some s') :
    Cooling cfg epoch s' (h.record s (.renewal_answer res now drawn order)) := by
  obtain ⟨last_sig, sub, candidates, after, hrenewal, hnow, hafter, hmerge⟩ := renewal_answer_spec hstep
  obtain ⟨hdistinct, hwaiting⟩ := hs.waiting_step hstep
  have hsnapshots := hs.distinct
  rw [hrenewal, Renewal.snapshots, List.map_cons, List.nodup_cons] at hsnapshots
  have hrest : s'.renewal.snapshots = candidates := by
    obtain rfl | ⟨_, _, _, _, _, rfl⟩ := merge_spec hmerge <;> rfl
  have hsub : sub ∈ s.snapshots := by simp [Server.snapshots, Renewal.snapshots, hrenewal]
  have houtcome := attempted_outcome hnow hafter
  -- Only the cooldown of the token that was sent begins anew.
  have hother : ∀ token, token ≠ sub.token →
      (h.record s (.renewal_answer res now drawn order)).accepted token = h.accepted token := by
    intro token hne
    cases hverdict : verdict res with
    | none => simp only [History.record, hrenewal, hverdict, Function.update_of_ne hne]
    | some why => simp only [History.record, hrenewal, hverdict]
  have hwritten : ∀ cur t, (h.record s (.renewal_answer res now drawn order)).accepted sub.token = some t →
      Rested s.clock t (write_back cur after) := by
    intro cur t ht
    cases hverdict : verdict res with
    | none =>
      simp only [History.record, hrenewal, hverdict, Function.update_self, Option.some.injEq] at ht
      subst ht
      rw [hverdict] at hafter
      refine Or.inr (Or.inl ?_)
      rw [write_back_next_attempt_at, attempted_next_attempt_at hafter]
    | some why =>
      simp only [History.record, hrenewal, hverdict] at ht
      exact Or.inl (hs.waiting sub (by simp [hrenewal, Renewal.snapshots]) t ht)
  refine ⟨step_tracked hs.toTracked hstep, fun token t ht => step_tokens hstep ?_, fun c cur hcur t ht => ?_,
    fun copy hcopy t ht => ?_, hdistinct⟩
  · by_cases htoken : token = sub.token
    · exact htoken ▸ hs.consistent.accounted.drawn sub hsub
    · exact hs.begun token t (hother token htoken ▸ ht)
  · refine Rested.mono (step_clock hstep) ?_
    obtain ⟨stored, hstored, htoken, _⟩ | hremoved := hs.snapshots sub hsub
    · have hstored' : s.reg.subs.lookup after.channel_id = some stored := houtcome.channel_id ▸ hstored
      have hreg := merge_stored hmerge hstored' (htoken.trans houtcome.token.symm)
      rw [hreg] at hcur
      obtain ⟨_, rfl⟩ | ⟨hne, hcur⟩ := lookup_update.mp hcur
      · rw [write_back_token, houtcome.token] at ht
        exact hwritten stored t ht
      · refine hs.resting c cur hcur t (hother _ (fun heq => hne ?_) ▸ ht)
        rw [write_back_channel_id]
        exact hs.consistent.memory.token_injective hcur hstored' (heq.trans htoken.symm)
    · have hlive : ∀ c cur, s.reg.subs.lookup c = some cur → cur.token ≠ sub.token := by
        intro c cur hcur heq
        rw [← heq, hs.live c cur hcur] at hremoved
        cases hremoved
      obtain rfl | ⟨stored, _, hstored, htoken, _, _⟩ := merge_spec hmerge
      · exact hs.resting c cur hcur t (hother _ (hlive c cur hcur) ▸ ht)
      · exact absurd (htoken.trans houtcome.token) (hlive _ stored hstored)
  · have hne : copy.token ≠ sub.token := fun heq => hsnapshots.1 (heq ▸ List.mem_map_of_mem (hrest ▸ hcopy))
    exact hwaiting copy hcopy t (hother _ hne ▸ ht)

theorem step_cooling {cfg : Config} {s s' : Server} {h : History} {a : Action} (hs : Cooling cfg epoch s h)
    (hspaced : Spaced cfg (s, h) a) (hstep : step cfg s a = some s') : Cooling cfg epoch s' (h.record s a) := by
  by_cases hanswer : ∃ res now drawn order, a = .renewal_answer res now drawn order
  · obtain ⟨res, now, drawn, order, rfl⟩ := hanswer
    exact hs.answer hstep
  by_cases hrestart : ∃ cache, a = .restart cache
  · obtain ⟨cache, rfl⟩ := hrestart
    have hforgotten : ∀ token t, (h.record s (.restart cache)).accepted token ≠ some t := fun _ _ ht => nomatch ht
    refine ⟨step_tracked hs.toTracked hstep, fun _ _ ht => absurd ht (hforgotten _ _),
      fun _ _ _ _ ht => absurd ht (hforgotten _ _), fun _ _ _ ht => absurd ht (hforgotten _ _), ?_⟩
    cases hstep
    exact List.nodup_nil
  simp only [not_exists] at hanswer hrestart
  obtain ⟨hdistinct, hwaiting⟩ := hs.waiting_step hstep
  refine ⟨step_tracked hs.toTracked hstep, ?_, ?_, ?_, hdistinct⟩
  · rw [record_accepted h s hanswer hrestart]
    exact fun token t ht => step_tokens hstep (hs.begun token t ht)
  · rw [record_accepted h s hanswer hrestart]
    exact fun c cur hcur t ht => hs.resting_step hspaced hstep hanswer hrestart hcur ht
  · simp only [CooledBy, record_accepted h s hanswer hrestart]
    exact hwaiting

theorem recorded_cooling {cfg : Config} {sh sh' : Server × History} {a : Action} (hs : Cooling cfg epoch sh.1 sh.2)
    (hspaced : Spaced cfg sh a) (hstep : recorded cfg sh a = some sh') : Cooling cfg epoch sh'.1 sh'.2 := by
  obtain ⟨hserver, hrecord⟩ := machine.traced_eq_some.mp hstep
  exact hrecord ▸ step_cooling hs hspaced hserver

theorem Cooling.init (cfg : Config) (clock : U64) (file : Option ChannelsFile) (cache : HashMap Text Text) :
    Cooling cfg clock (.init clock file cache) .empty where
  toTracked := .init cfg clock file cache
  begun _ _ ht := nomatch ht
  resting _ _ _ _ ht := nomatch ht
  waiting _ hsub := absurd hsub List.not_mem_nil
  distinct := List.nodup_nil

theorem Cooling.respects {cfg : Config} {s : Server} {h : History} (hs : Cooling cfg epoch s h) (a : Action) :
    RespectsCooldown (s, h) a := by
  unfold RespectsCooldown
  split
  · split
    · rename_i last_sig sub candidates hrenewal
      exact hs.waiting sub (by simp [show s.renewal = _ from hrenewal, Renewal.snapshots])
    · trivial
  · trivial

/-- No token is sent a second subscribe request during its cooldown, in any run in which
what is written during a cooldown does not end it early. -/
theorem cooldown_respected {cfg : Config} {clock : U64} {file : Option ChannelsFile} {cache : HashMap Text Text}
    {actions : List Action}
    (hspaced : machine.Along (recorded cfg) (Spaced cfg) (.init clock file cache, .empty) actions) :
    machine.Along (recorded cfg) RespectsCooldown (.init clock file cache, .empty) actions :=
  hspaced.of_invariant (fun sh => Cooling cfg clock sh.1 sh.2) (fun _ _ _ => recorded_cooling)
    (fun _ a hs _ => hs.respects a) (.init cfg clock file cache)

instance (h : History) (token : Text) (time : Nat) : Decidable (CooledBy h token time) :=
  match haccepted : h.accepted token with
  | some t => decidable_of_iff (t.val + RENEW_COOLDOWN ≤ time) (by simp [CooledBy, haccepted])
  | none => isTrue (by simp [CooledBy, haccepted])

instance (cfg : Config) (sh : Server × History) (a : Action) : Decidable (Spaced cfg sh a) := by
  unfold Spaced
  split
  · split <;> infer_instance
  · split <;> infer_instance
  · infer_instance

/-- A late verification is asked for again, and the hub accepts. -/
def renewedSub : Sub :=
  { firstSub with last_subscribe_at := 701, next_attempt_at := 1001 }

def renewActions : List Action :=
  startupActions ++
    [.renewal_sample, .advance 701, .renewal_sample, .renewal_wake, .renewal_expire [], .renewal_select [firstSub],
      .renewal_send, .renewal_answer (.ok 202) 701 0 [renewedSub]]

/-- The hub verifies, for a time of its own choice, and the next tick begins a minute later. -/
def nextTickActions (query : Text) (lease : U64) : List Action :=
  [.get_lookup firstSub.token query, .get_verify 0 [verified renewedSub lease 701], .renewal_sleep, .advance 761,
    .renewal_sample, .renewal_wake, .renewal_expire [], .renewal_select [verified renewedSub lease 701]]

def tenDaysQuery : Text :=
  "hub.mode=subscribe&hub.challenge=x&hub.lease_seconds=864000&hub.topic=".toList ++ firstSub.topic

theorem cooldown_respected_ten_days :
    machine.Along (recorded ⟨864000⟩) RespectsCooldown (.init 1 (some oneChannelFile) ∅, .empty)
      (renewActions ++ nextTickActions tenDaysQuery 864000) :=
  cooldown_respected (by decide +kernel)

/-- A lease shorter than `RENEW_LEAD` makes the subscription due at once, and the next tick
sends again. -/
theorem cooldown_ignored :
    ∃ s h, machine.Run (recorded ⟨864000⟩) (.init 1 (some oneChannelFile) ∅, .empty)
        (renewActions ++ nextTickActions verifyQuery 100) (s, h) ∧
      s.clock = 761 ∧ h.accepted firstSub.token = some 701 ∧
      s.renewal = .renewing (channels_sig s.file) [verified renewedSub 100 701] ∧
      (step ⟨864000⟩ s .renewal_send).isSome ∧ ¬ RespectsCooldown (s, h) .renewal_send := by
  obtain ⟨⟨s, h⟩, hrun, hsend⟩ := machine.exists_run (recorded ⟨864000⟩)
    (show ((renewActions ++ nextTickActions verifyQuery 100).foldlM (recorded ⟨864000⟩)
      (.init 1 (some oneChannelFile) ∅, .empty)).any
        (fun sh => sh.1.clock = 761 ∧ sh.2.accepted firstSub.token = some 701 ∧
          sh.1.renewal = .renewing (channels_sig sh.1.file) [verified renewedSub 100 701] ∧
          (step ⟨864000⟩ sh.1 .renewal_send).isSome) = true by decide +kernel)
  rw [decide_eq_true_eq] at hsend
  obtain ⟨hclock, haccepted, hrenewal, henabled⟩ := hsend
  refine ⟨s, h, hrun, hclock, haccepted, hrenewal, henabled, fun hrespects => ?_⟩
  simp only [RespectsCooldown, show s.renewal = _ from hrenewal] at hrespects
  have hle := hrespects 701 haccepted
  rw [show s.clock = 761 from hclock] at hle
  exact absurd hle (by decide)

end yt_websub.server
