import YtWebsub.Server

open rust rust.utf8 rust.text rust.num rust.map
open yt_websub.subs yt_websub.renew yt_websub.callback

namespace yt_websub.server

/-- The copies of subscriptions that the renewal thread holds while it sends requests. -/
def Renewal.snapshots : Renewal → List Sub
  | .renewing _ candidates => candidates
  | .sending _ sub candidates => sub :: candidates
  | _ => []

def Stage.snapshots : Stage → List Sub
  | .subscribing sub _ _ => [sub]
  | _ => []

/-- The copies of subscriptions that may still be written back. -/
def Server.snapshots (s : Server) : List Sub :=
  s.reconcile_lock.elim [] (fun held => held.2.snapshots) ++ s.renewal.snapshots

/-- The channels that the reconcile in progress may still add. -/
def Server.wanted (s : Server) : List Text :=
  match s.reconcile_lock with
  | some (_, .diffing desired _) => desired
  | some (_, .pausing to_add _) => to_add
  | some (_, .subscribing _ to_add _) => to_add
  | _ => []

/-- What the answer of the hub makes of a copy. -/
structure Outcome (clock : U64) (before after : Sub) : Prop where
  channel_id : after.channel_id = before.channel_id
  token : after.token = before.token
  topic : after.topic = before.topic
  secret : after.secret = before.secret
  lease_seconds : after.lease_seconds = before.lease_seconds
  expires_at : after.expires_at = before.expires_at
  last_subscribe_at : after.last_subscribe_at = before.last_subscribe_at
  state : after.state = pending ∨ after.state = failed ∨ (before.state = active ∧ after.state = active)
  next_attempt_at : after.next_attempt_at.val ≤ clock.val + 2250
  last_error : after.last_error.length ≤ MAX_ERR

theorem verdict_length {res : Except Text (Fin (2 ^ 16))} {why : Text} (h : verdict res = some why) :
    why.length ≤ MAX_ERR := by
  cases res with
  | ok code =>
    simp only [verdict] at h
    split at h
    · cases h
    · rw [Option.some.injEq] at h
      subst h
      have hdigits : (to_string code.val).length ≤ 5 :=
        Nat.toDigits_length 10 code.val 5 (by decide) (code.isLt.trans (by decide))
      have hstart : "HTTP ".toList.length = 5 := by decide
      rw [List.length_append, hstart, MAX_ERR]
      omega
  | error e =>
    simp only [verdict, Option.some.injEq] at h
    subst h
    exact List.length_take_le _ _

theorem refuse_new_outcome {sub sub' : Sub} {res : Except Text (Fin (2 ^ 16))} {why : Text}
    (hwhy : verdict res = some why) {now drawn clock : U64} (hnow : now ≤ clock)
    (h : refuse_new sub why now drawn = some sub') : Outcome clock sub sub' := by
  obtain ⟨next_attempt_at, hnext, rfl⟩ := Option.map_eq_some_iff.mp h
  have hval := checked_add_eq_some.mp hnext
  have hle := backoff_le 1 drawn
  rw [Fin.le_def] at hnow
  exact ⟨rfl, rfl, rfl, rfl, rfl, rfl, rfl, Or.inr (Or.inl rfl), by dsimp only; omega, verdict_length hwhy⟩

theorem attempted_outcome {sub sub' : Sub} {res : Except Text (Fin (2 ^ 16))} {now drawn clock : U64}
    (hnow : now ≤ clock) (h : attempted sub (verdict res) now drawn = some sub') : Outcome clock sub sub' := by
  rw [Fin.le_def] at hnow
  have hstate : ∀ other, (if sub.state = active then sub.state else other) = other ∨
      sub.state = active ∧ (if sub.state = active then sub.state else other) = active := by
    intro other
    split
    · rename_i hactive
      exact Or.inr ⟨hactive, hactive⟩
    · exact Or.inl rfl
  cases hverdict : verdict res with
  | none =>
    simp only [attempted, hverdict] at h
    obtain ⟨next_attempt_at, hnext, rfl⟩ := Option.map_eq_some_iff.mp h
    have hval := checked_add_eq_some.mp hnext
    refine ⟨rfl, rfl, rfl, rfl, rfl, rfl, rfl, ?_, ?_, Nat.zero_le _⟩
    · exact (hstate pending).imp_right Or.inr
    · simp only [RENEW_COOLDOWN] at hval
      dsimp only
      omega
  | some why =>
    simp only [attempted, hverdict] at h
    split at h
    · obtain ⟨next_attempt_at, hnext, rfl⟩ := Option.map_eq_some_iff.mp h
      have hval := checked_add_eq_some.mp hnext
      have hle := backoff_le ⟨sub.fail_count.val + 1, by assumption⟩ drawn
      refine ⟨rfl, rfl, rfl, rfl, rfl, rfl, rfl, Or.inr (hstate failed), ?_, verdict_length hverdict⟩
      dsimp only
      omega
    · cases h

/-- The registry was changed and saved. -/
def Saved (s' : Server) (reg : Registry) : Prop :=
  s'.reg = reg ∧ ∃ order bytes, reg.save order = some bytes ∧ s'.disk = some bytes

/-- The actions that take the answer of the hub to a subscribe request. -/
def Action.answers : Action → Bool
  | .reconcile_answer _ _ _ _ | .renewal_answer _ _ _ _ => true
  | _ => false

/-- Everything a step can do to the subscriptions. -/
inductive Effect (cfg : Config) (s : Server) (a : Action) (s' : Server) : Prop where
  | quiet (clock : s.clock ≤ s'.clock) (reg : s'.reg = s.reg) (disk : s'.disk = s.disk)
      (grants : s'.grants = s.grants) (tokens : s'.tokens = s.tokens)
      (snapshots : ∀ sub ∈ s'.snapshots, sub ∈ s.snapshots ∨ sub ∈ values s.reg.subs ∨
        ∃ old ∈ s.snapshots, sub = { old with last_subscribe_at := s.clock })
  | insert (cid : Text) (token secret : Bytes) (now : U64) (holder : Holder) (adds : List Text) (removes : List Sub)
      (action : a = .reconcile_insert token secret now)
      (held : s.reconcile_lock = some (holder, .pausing (cid :: adds) removes)) (time : now ≤ s.clock)
      (fresh : (new_sub cid token secret now).token ∉ s.tokens) (clock : s'.clock = s.clock)
      (reg : s'.reg = s.reg.insert (new_sub cid token secret now)) (disk : s'.disk = s.disk)
      (grants : s'.grants = s.grants) (tokens : s'.tokens = s.tokens ++ [(new_sub cid token secret now).token])
      (snapshots : ∀ sub ∈ s'.snapshots, sub ∈ s.snapshots ∨ sub = new_sub cid token secret now)
  | merge (before after cur : Sub) (action : a.answers = true) (snapshot : before ∈ s.snapshots)
      (outcome : Outcome s.clock before after)
      (stored : s.reg.subs.lookup after.channel_id = some cur) (same : cur.token = after.token)
      (clock : s'.clock = s.clock) (saved : Saved s' (s.reg.update (write_back cur after)))
      (grants : s'.grants = s.grants) (tokens : s'.tokens = s.tokens) (snapshots : s'.snapshots ⊆ s.snapshots)
  | verify (cid : Text) (cur : Sub) (lease : U64) (action : ∃ i order, a = .get_verify i order)
      (stored : s.reg.subs.lookup cid = some cur)
      (capped : lease ≤ max cfg.lease_seconds 1) (clock : s'.clock = s.clock)
      (saved : Saved s' (s.reg.update (verified cur lease s.clock)))
      (grants : s'.grants = Function.update s.grants cur.token (some (s.clock, lease)))
      (tokens : s'.tokens = s.tokens) (snapshots : s'.snapshots ⊆ s.snapshots)
  | expire (now : U64) (last_sig : U64 × Nat) (action : ∃ order, a = .renewal_expire order)
      (pc : s.renewal = .expiring last_sig now) (reg : Registry)
      (lapsed : expire_lapsed s.reg now = some reg) (clock : s'.clock = s.clock) (saved : Saved s' reg)
      (grants : s'.grants = s.grants) (tokens : s'.tokens = s.tokens) (snapshots : s'.snapshots ⊆ s.snapshots)
  | remove (holder : Holder) (sub : Sub) (removes : List Sub) (action : a = .reconcile_remove)
      (held : s.reconcile_lock = some (holder, .unsubscribing sub removes))
      (reg : s.reg.remove sub.channel_id s.clock = some s'.reg) (clock : s'.clock = s.clock)
      (disk : s'.disk = s.disk) (grants : s'.grants = s.grants) (tokens : s'.tokens = s.tokens)
      (snapshots : s'.snapshots ⊆ s.snapshots)
  | forget (i : Nat) (token : Text) (now : U64) (challenge : Text) (action : a = .get_forget i)
      (confirming : s.gets[i]? = some (.confirming token now challenge)) (clock : s'.clock = s.clock)
      (reg : s'.reg = s.reg.forget_unsub token now) (disk : s'.disk = s.disk) (grants : s'.grants = s.grants)
      (tokens : s'.tokens = s.tokens) (snapshots : s'.snapshots ⊆ s.snapshots)
  | save (action : ∃ order, a = .reconcile_finish order) (clock : s'.clock = s.clock) (saved : Saved s' s.reg)
      (grants : s'.grants = s.grants) (tokens : s'.tokens = s.tokens) (snapshots : s'.snapshots ⊆ s.snapshots)
  | restart (cache : HashMap Text Text) (action : a = .restart cache) (clock : s'.clock = s.clock)
      (reg : s'.reg = .load s.disk) (disk : s'.disk = s.disk)
      (grants : s'.grants = s.grants) (tokens : s'.tokens = s.tokens) (snapshots : s'.snapshots = [])

theorem save_spec {s s' : Server} {reg : Registry} {order : List Sub} (h : s.save reg order = some s') :
    ∃ bytes, reg.save order = some bytes ∧ s' = { s with reg, disk := some bytes } := by
  obtain ⟨bytes, hbytes, rfl⟩ := Option.map_eq_some_iff.mp h
  exact ⟨bytes, hbytes, rfl⟩

/-- The two ways out of `merge_attempt`. -/
theorem merge_spec {s s' : Server} {sub : Sub} {order : List Sub} (h : s.merge sub order = some s') :
    s' = s ∨ ∃ cur bytes, s.reg.subs.lookup sub.channel_id = some cur ∧ cur.token = sub.token ∧
      (s.reg.update (write_back cur sub)).save order = some bytes ∧
      s' = { s with reg := s.reg.update (write_back cur sub), disk := some bytes } := by
  simp only [Server.merge, merge_attempt] at h
  split at h
  · rw [Option.some.injEq] at h
    exact Or.inl h.symm
  · rename_i reg hmerge
    split at hmerge
    · cases hmerge
    · rename_i cur hcur
      split at hmerge
      · cases hmerge
      · rename_i htoken
        rw [Option.some.injEq] at hmerge
        subst hmerge
        obtain ⟨bytes, hbytes, rfl⟩ := save_spec h
        exact Or.inr ⟨cur, bytes, hcur, not_not.mp htoken, hbytes, rfl⟩

/-- A stage that copies no subscription adds nothing to the copies. -/
theorem snapshots_of_stage {s s' : Server} {holder : Holder} {stage : Stage}
    (hlock : s'.reconcile_lock = some (holder, stage)) (hstage : stage.snapshots = [])
    (hrenewal : s'.renewal.snapshots ⊆ s.renewal.snapshots) : s'.snapshots ⊆ s.snapshots := by
  rw [Server.snapshots, hlock, Option.elim_some, hstage, List.nil_append]
  exact List.subset_append_of_subset_right _ hrenewal

theorem release_snapshots (s : Server) (holder : Holder) : (s.release holder).snapshots ⊆ s.snapshots := by
  cases holder with
  | api i => simp [Server.snapshots, Server.release]
  | renewal =>
    cases hrenewal : s.renewal <;> simp [Server.snapshots, Server.release, Renewal.snapshots, hrenewal]

/-- A step that leaves the subscriptions alone. -/
theorem Effect.of_same {cfg : Config} {s s' : Server} {a : Action} (hclock : s.clock ≤ s'.clock)
    (hreg : s'.reg = s.reg) (hdisk : s'.disk = s.disk) (hgrants : s'.grants = s.grants)
    (htokens : s'.tokens = s.tokens)
    (hsnapshots : s'.snapshots ⊆ s.snapshots) : Effect cfg s a s' :=
  .quiet hclock hreg hdisk hgrants htokens fun _ hsub => Or.inl (hsnapshots hsub)

theorem Effect.merge_of_spec {cfg : Config} {s mid s' : Server} {a : Action} {before after : Sub} {order : List Sub}
    (ha : a.answers = true) (hmerge : mid.merge after order = some s') (hbefore : before ∈ s.snapshots)
    (houtcome : Outcome s.clock before after) (hclock : mid.clock = s.clock) (hreg : mid.reg = s.reg)
    (hdisk : mid.disk = s.disk) (hgrants : mid.grants = s.grants) (htokens : mid.tokens = s.tokens)
    (hsnapshots : mid.snapshots ⊆ s.snapshots) : Effect cfg s a s' := by
  obtain rfl | ⟨cur, bytes, hcur, htoken, hbytes, rfl⟩ := merge_spec hmerge
  · exact .of_same hclock.ge hreg hdisk hgrants htokens hsnapshots
  · rw [hreg] at hcur hbytes
    refine .merge before after cur ha hbefore houtcome hcur htoken hclock
      ⟨?_, order, bytes, hbytes, rfl⟩ hgrants htokens
      hsnapshots
    rw [hreg]

/-- Every step has one of these effects. -/
theorem step_effect {cfg : Config} {s s' : Server} {a : Action} (hstep : step cfg s a = some s') :
    Effect cfg s a s' := by
  cases a with
  | advance clock =>
    simp only [step] at hstep
    split at hstep
    · rename_i hle
      rw [Option.some.injEq] at hstep
      subst hstep
      exact .of_same hle rfl rfl rfl rfl (List.Subset.refl _)
    · cases hstep
  | edit file =>
    simp only [step, Option.some.injEq] at hstep
    subst hstep
    exact .of_same le_rfl rfl rfl rfl rfl (List.Subset.refl _)
  | post_render received =>
    simp only [step, Option.some.injEq] at hstep
    subst hstep
    exact .of_same le_rfl rfl rfl rfl rfl (List.Subset.refl _)
  | post_write i mtime =>
    simp only [step] at hstep
    split at hstep
    · rw [Option.some.injEq] at hstep
      subst hstep
      exact .of_same le_rfl rfl rfl rfl rfl (List.Subset.refl _)
    · cases hstep
  | post_fail i =>
    simp only [step] at hstep
    split at hstep
    · rw [Option.some.injEq] at hstep
      subst hstep
      exact .of_same le_rfl rfl rfl rfl rfl (List.Subset.refl _)
    · cases hstep
  | post_try_lock i =>
    simp only [step] at hstep
    split at hstep
    · rename_i hlock
      rw [Option.some.injEq] at hstep
      subst hstep
      exact .of_same le_rfl rfl rfl rfl rfl (snapshots_of_stage rfl rfl (List.Subset.refl _))
    · rw [Option.some.injEq] at hstep
      subst hstep
      exact .of_same le_rfl rfl rfl rfl rfl (List.Subset.refl _)
    · cases hstep
  | renewal_lock =>
    simp only [step] at hstep
    split at hstep
    · rename_i hrenewal hlock
      rw [Option.some.injEq] at hstep
      subst hstep
      exact .of_same le_rfl rfl rfl rfl rfl (snapshots_of_stage rfl rfl (List.nil_subset _))
    · rename_i hrenewal hlock
      rw [Option.some.injEq] at hstep
      subst hstep
      exact .of_same le_rfl rfl rfl rfl rfl (snapshots_of_stage rfl rfl (List.nil_subset _))
    · cases hstep
  | reconcile_read readable fetch =>
    simp only [step] at hstep
    split at hstep
    · rename_i hlock
      rw [Option.some.injEq] at hstep
      subst hstep
      exact .of_same le_rfl rfl rfl rfl rfl (snapshots_of_stage rfl rfl (List.Subset.refl _))
    · cases hstep
  | reconcile_diff removes =>
    simp only [step] at hstep
    split at hstep
    · split at hstep
      · rw [Option.some.injEq] at hstep
        subst hstep
        exact .of_same le_rfl rfl rfl rfl rfl (snapshots_of_stage rfl rfl (List.Subset.refl _))
      · cases hstep
    · cases hstep
  | reconcile_insert token secret now =>
    simp only [step] at hstep
    split at hstep
    · rename_i holder cid adds removes hlock
      split at hstep
      · rename_i hfresh
        rw [Option.some.injEq] at hstep
        subst hstep
        refine .insert cid token secret now holder adds removes rfl hlock hfresh.2 hfresh.1 rfl rfl rfl rfl rfl ?_
        intro sub hsub
        simp only [Server.snapshots, Server.setStage, Stage.snapshots, Option.elim_some, List.mem_append,
          List.mem_singleton] at hsub
        obtain hnew | hold := hsub
        · exact Or.inr hnew
        · exact Or.inl (List.mem_append_right _ hold)
      · cases hstep
    · cases hstep
  | reconcile_answer res now drawn order =>
    simp only [step] at hstep
    split at hstep
    · rename_i holder sub adds removes hlock
      split at hstep
      · rw [Option.some.injEq] at hstep
        subst hstep
        exact .of_same le_rfl rfl rfl rfl rfl (snapshots_of_stage rfl rfl (List.Subset.refl _))
      · rename_i why hwhy
        split at hstep
        · rename_i hnow
          obtain ⟨after, hafter, hmerge⟩ := Option.bind_eq_some_iff.mp hstep
          have hsub : sub ∈ s.snapshots := by simp [Server.snapshots, Stage.snapshots, hlock]
          exact .merge_of_spec rfl hmerge hsub (refuse_new_outcome hwhy hnow hafter) rfl rfl rfl rfl rfl
            (snapshots_of_stage rfl rfl (List.Subset.refl _))
        · cases hstep
    · cases hstep
  | reconcile_unsubscribe =>
    simp only [step] at hstep
    split at hstep
    · rw [Option.some.injEq] at hstep
      subst hstep
      exact .of_same le_rfl rfl rfl rfl rfl (snapshots_of_stage rfl rfl (List.Subset.refl _))
    · cases hstep
  | reconcile_remove =>
    simp only [step] at hstep
    split at hstep
    · rename_i holder sub removes hlock
      obtain ⟨reg, hreg, rfl⟩ := Option.map_eq_some_iff.mp hstep
      exact .remove holder sub removes rfl hlock hreg rfl rfl rfl rfl
        (snapshots_of_stage rfl rfl (List.Subset.refl _))
    · cases hstep
  | reconcile_finish order =>
    simp only [step] at hstep
    split at hstep
    · rename_i holder hlock
      obtain ⟨bytes, hbytes, rfl⟩ := save_spec hstep
      have hclock : (s.release holder).clock = s.clock ∧ (s.release holder).grants = s.grants ∧
          (s.release holder).tokens = s.tokens := by
        cases holder <;> exact ⟨rfl, rfl, rfl⟩
      exact .save ⟨order, rfl⟩ hclock.1 ⟨rfl, order, bytes, hbytes, rfl⟩ hclock.2.1 hclock.2.2
        (release_snapshots s holder)
    · cases hstep
  | renewal_sample =>
    simp only [step] at hstep
    split at hstep
    · rename_i hrenewal
      rw [Option.some.injEq] at hstep
      subst hstep
      exact .of_same le_rfl rfl rfl rfl rfl (by simp [Server.snapshots, Renewal.snapshots])
    · rename_i last_sig hrenewal
      rw [Option.some.injEq] at hstep
      subst hstep
      refine .of_same le_rfl rfl rfl rfl rfl ?_
      by_cases hsig : channels_sig s.file = last_sig
      · simp [Server.snapshots, Renewal.snapshots, hsig]
      · simp [Server.snapshots, Renewal.snapshots, hsig]
    · cases hstep
  | renewal_wake =>
    simp only [step] at hstep
    split at hstep
    · rw [Option.some.injEq] at hstep
      subst hstep
      exact .of_same le_rfl rfl rfl rfl rfl (by simp [Server.snapshots, Renewal.snapshots])
    · cases hstep
  | renewal_expire order =>
    simp only [step] at hstep
    split at hstep
    · rename_i last_sig now hrenewal
      split at hstep
      · rw [Option.some.injEq] at hstep
        subst hstep
        exact .of_same le_rfl rfl rfl rfl rfl (by simp [Server.snapshots, Renewal.snapshots])
      · rename_i reg hreg
        obtain ⟨bytes, hbytes, rfl⟩ := save_spec hstep
        exact .expire now last_sig ⟨order, rfl⟩ hrenewal reg hreg rfl ⟨rfl, order, bytes, hbytes, rfl⟩ rfl rfl
          (by simp [Server.snapshots, Renewal.snapshots])
    · cases hstep
  | renewal_select order =>
    simp only [step] at hstep
    split at hstep
    · rename_i last_sig now hrenewal
      split at hstep
      · rename_i hperm
        obtain ⟨chosen, hchosen, rfl⟩ := Option.map_eq_some_iff.mp hstep
        refine .quiet le_rfl rfl rfl rfl rfl fun sub hsub => ?_
        simp only [Server.snapshots, Renewal.snapshots, List.mem_append] at hsub ⊢
        obtain hold | hnew := hsub
        · exact Or.inl (Or.inl hold)
        · exact Or.inr (Or.inl (hperm.mem_iff.mp ((mem_candidates hchosen sub).mp hnew).1))
      · cases hstep
    · cases hstep
  | renewal_send =>
    simp only [step] at hstep
    split at hstep
    · rename_i last_sig sub candidates hrenewal
      rw [Option.some.injEq] at hstep
      subst hstep
      refine .quiet le_rfl rfl rfl rfl rfl fun copy hcopy => ?_
      simp only [Server.snapshots, Renewal.snapshots, hrenewal, List.mem_append, List.mem_cons] at hcopy ⊢
      obtain hold | rfl | hold := hcopy
      · exact Or.inl (Or.inl hold)
      · exact Or.inr (Or.inr ⟨sub, Or.inr (Or.inl rfl), rfl⟩)
      · exact Or.inl (Or.inr (Or.inr hold))
    · cases hstep
  | renewal_answer res now drawn order =>
    simp only [step] at hstep
    split at hstep
    · rename_i last_sig sub candidates hrenewal
      split at hstep
      · rename_i hnow
        obtain ⟨after, hafter, hmerge⟩ := Option.bind_eq_some_iff.mp hstep
        have hsub : sub ∈ s.snapshots := by simp [Server.snapshots, Renewal.snapshots, hrenewal]
        refine .merge_of_spec rfl hmerge hsub (attempted_outcome hnow.2 hafter) rfl rfl rfl rfl rfl ?_
        simp [Server.snapshots, Renewal.snapshots, hrenewal]
      · cases hstep
    · cases hstep
  | renewal_sleep =>
    simp only [step] at hstep
    split at hstep
    · rw [Option.some.injEq] at hstep
      subst hstep
      exact .of_same le_rfl rfl rfl rfl rfl (by simp [Server.snapshots, Renewal.snapshots])
    · cases hstep
  | get_lookup token query =>
    simp only [step] at hstep
    split at hstep
    all_goals
      rw [Option.some.injEq] at hstep
      subst hstep
      exact .of_same le_rfl rfl rfl rfl rfl (List.Subset.refl _)
  | get_verify i order =>
    simp only [step] at hstep
    split at hstep
    · rename_i sub query hget
      split at hstep
      · rw [Option.some.injEq] at hstep
        subst hstep
        exact .of_same le_rfl rfl rfl rfl rfl (List.Subset.refl _)
      · rename_i cur hcur
        obtain ⟨cid, _, hstored⟩ := Option.bind_eq_some_iff.mp hcur
        obtain ⟨bytes, hbytes, rfl⟩ := save_spec hstep
        exact .verify cid cur (granted_lease cfg.lease_seconds query) ⟨i, order, rfl⟩ hstored (min_le_right _ _) rfl
          ⟨rfl, order, bytes, hbytes, rfl⟩ rfl rfl (List.Subset.refl _)
    · cases hstep
  | get_unsub_topic i now =>
    simp only [step] at hstep
    split at hstep
    · split at hstep
      · split at hstep
        all_goals
          rw [Option.some.injEq] at hstep
          subst hstep
          exact .of_same le_rfl rfl rfl rfl rfl (List.Subset.refl _)
      · cases hstep
    · cases hstep
  | get_forget i =>
    simp only [step] at hstep
    split at hstep
    · rename_i token now challenge hconfirming
      rw [Option.some.injEq] at hstep
      subst hstep
      exact .forget i token now challenge rfl hconfirming rfl rfl rfl rfl rfl (List.Subset.refl _)
    · cases hstep
  | restart cache =>
    simp only [step, Option.some.injEq] at hstep
    subst hstep
    exact .restart cache rfl rfl rfl rfl rfl rfl rfl

theorem step_clock {cfg : Config} {s s' : Server} {a : Action} (hstep : step cfg s a = some s') :
    s.clock ≤ s'.clock := by
  cases step_effect hstep with
  | quiet clock => exact clock
  | insert _ _ _ _ _ _ _ _ _ _ _ clock => exact clock.ge
  | merge _ _ _ _ _ _ _ _ clock => exact clock.ge
  | verify _ _ _ _ _ _ clock => exact clock.ge
  | expire _ _ _ _ _ _ clock => exact clock.ge
  | remove _ _ _ _ _ _ clock => exact clock.ge
  | forget _ _ _ _ _ _ clock => exact clock.ge
  | save _ clock => exact clock.ge
  | restart _ _ clock => exact clock.ge

/-- The actions that move the renewal thread. -/
def Action.renews : Action → Bool
  | .renewal_lock | .renewal_sample | .renewal_wake | .renewal_expire _ | .renewal_select _ | .renewal_send
  | .renewal_answer _ _ _ _ | .renewal_sleep | .reconcile_finish _ | .restart _ => true
  | _ => false

/-- Everything else leaves the renewal thread where it is. -/
theorem step_renewal {cfg : Config} {s s' : Server} {a : Action} (ha : a.renews = false)
    (hstep : step cfg s a = some s') : s'.renewal = s.renewal := by
  cases a <;> simp only [Action.renews, Bool.true_eq_false] at ha
  case reconcile_answer res now drawn order =>
    simp only [step] at hstep
    split at hstep
    · split at hstep
      · rw [← Option.some.inj hstep]
        rfl
      · split at hstep
        · obtain ⟨after, _, hmerge⟩ := Option.bind_eq_some_iff.mp hstep
          obtain rfl | ⟨_, _, _, _, _, rfl⟩ := merge_spec hmerge <;> rfl
        · cases hstep
    · cases hstep
  case reconcile_remove =>
    simp only [step] at hstep
    split at hstep
    · obtain ⟨_, _, rfl⟩ := Option.map_eq_some_iff.mp hstep
      rfl
    · cases hstep
  case get_verify i order =>
    simp only [step] at hstep
    split at hstep
    · split at hstep
      · rw [← Option.some.inj hstep]
      · obtain ⟨_, _, rfl⟩ := save_spec hstep
        rfl
    · cases hstep
  all_goals
    simp only [step] at hstep
    repeat' split at hstep
    all_goals cases hstep
    all_goals rfl

/-- The time that a renewal pass works with until it has selected its candidates. -/
def Renewal.now : Renewal → Option U64
  | .expiring _ now | .selecting _ now => some now
  | _ => none

/-- Everything a step can do to the copies and the time that the renewal thread holds. -/
inductive Pass (s : Server) (a : Action) (s' : Server) : Prop where
  | other (snapshots : s'.renewal.snapshots.Sublist s.renewal.snapshots)
      (now : ∀ now, s'.renewal.now = some now → now = s.clock ∨ s.renewal.now = some now)
  | select (last_sig : U64 × Nat) (now : U64) (order : List Sub) (action : a = .renewal_select order)
      (pc : s.renewal = .selecting last_sig now) (perm : order.Perm (values s.reg.subs))
      (chosen : candidates now order = some s'.renewal.snapshots) (done : s'.renewal.now = none)
  | send (last_sig : U64 × Nat) (sub : Sub) (candidates : List Sub) (action : a = .renewal_send)
      (pc : s.renewal = .renewing last_sig (sub :: candidates))
      (sent : s'.renewal = .sending last_sig { sub with last_subscribe_at := s.clock } candidates)

/-- The thread holds no copies and no time. -/
theorem Pass.of_idle {s s' : Server} {a : Action} (hsnapshots : s'.renewal.snapshots = [])
    (hnow : s'.renewal.now = none) :
    Pass s a s' := by
  refine .other (hsnapshots ▸ List.nil_sublist _) fun now h => ?_
  rw [hnow] at h
  cases h

theorem step_pass {cfg : Config} {s s' : Server} {a : Action} (hstep : step cfg s a = some s') : Pass s a s' := by
  by_cases hrenews : a.renews = false
  · have hrenewal := step_renewal hrenews hstep
    exact .other (hrenewal ▸ List.Sublist.refl _) fun now h => Or.inr (hrenewal ▸ h)
  cases a <;> simp only [Action.renews, not_true_eq_false] at hrenews
  case renewal_lock =>
    simp only [step] at hstep
    split at hstep <;> cases hstep <;> exact .of_idle rfl rfl
  case renewal_sample =>
    simp only [step] at hstep
    split at hstep
    · cases hstep
      exact .of_idle rfl rfl
    · cases hstep
      refine .of_idle ?_ ?_ <;> dsimp only <;> split <;> rfl
    · cases hstep
  case renewal_wake =>
    simp only [step] at hstep
    split at hstep <;> cases hstep
    refine .other (List.nil_sublist _) fun now h => Or.inl ?_
    exact (Option.some.inj h).symm
  case renewal_expire order =>
    simp only [step] at hstep
    split at hstep
    · rename_i last_sig now hrenewal
      split at hstep
      · cases hstep
        exact .other (List.nil_sublist _) fun now h => Or.inr (hrenewal ▸ h)
      · obtain ⟨_, _, rfl⟩ := save_spec hstep
        exact .other (List.nil_sublist _) fun now h => Or.inr (hrenewal ▸ h)
    · cases hstep
  case renewal_select order =>
    simp only [step] at hstep
    split at hstep
    · rename_i last_sig now hrenewal
      split at hstep
      · rename_i hperm
        obtain ⟨chosen, hchosen, rfl⟩ := Option.map_eq_some_iff.mp hstep
        exact .select last_sig now order rfl hrenewal hperm hchosen rfl
      · cases hstep
    · cases hstep
  case renewal_send =>
    simp only [step] at hstep
    split at hstep
    · rename_i last_sig sub candidates hrenewal
      cases hstep
      exact .send last_sig sub candidates rfl hrenewal rfl
    · cases hstep
  case renewal_answer res now drawn order =>
    simp only [step] at hstep
    split at hstep
    · rename_i last_sig sub candidates hrenewal
      split at hstep
      · obtain ⟨after, _, hmerge⟩ := Option.bind_eq_some_iff.mp hstep
        have hrest : s'.renewal = .renewing last_sig candidates := by
          obtain rfl | ⟨_, _, _, _, _, rfl⟩ := merge_spec hmerge <;> rfl
        refine .other ?_ fun now h => ?_
        · rw [hrest, hrenewal]
          exact List.sublist_cons_self _ _
        · rw [hrest] at h
          cases h
      · cases hstep
    · cases hstep
  case renewal_sleep =>
    simp only [step] at hstep
    split at hstep <;> cases hstep
    exact .of_idle rfl rfl
  case reconcile_finish order =>
    simp only [step] at hstep
    split at hstep
    · rename_i holder hlock
      obtain ⟨_, _, rfl⟩ := save_spec hstep
      cases holder with
      | api i => exact .other (List.Sublist.refl _) fun now h => Or.inr h
      | renewal =>
        cases hrenewal : s.renewal with
        | startup =>
          exact .of_idle (by simp [Server.release, hrenewal, Renewal.snapshots])
            (by simp [Server.release, hrenewal, Renewal.now])
        | reconciling last_sig =>
          exact .of_idle (by simp [Server.release, hrenewal, Renewal.snapshots])
            (by simp [Server.release, hrenewal, Renewal.now])
        | _ =>
          refine .other ?_ fun now h => Or.inr ?_
          · simp [Server.release, hrenewal]
          · simpa [Server.release, hrenewal] using h
    · cases hstep
  case restart cache =>
    cases hstep
    exact .of_idle rfl rfl

end yt_websub.server
