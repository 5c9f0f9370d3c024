import YtWebsub.Server.History

open rust rust.utf8 rust.text rust.num rust.map
open yt_websub.subs yt_websub.renew yt_websub.callback

namespace yt_websub.server

variable {epoch : U64}

/-- The unsubscribe of a subscription removed at time `r` can be confirmed, or need not be
any more. -/
def Answerable (s : Server) (h : History) (sub : Sub) (r : U64) : Prop :=
  sub.token ∈ h.confirmed ∨ r.val + UNSUB_GRACE ≤ s.clock.val ∨
    ∃ deadline, s.reg.unsub_pending.lookup sub.token = some (sub.topic, deadline) ∧ deadline.val = r.val + UNSUB_GRACE

/-- Where the subscriptions of the tokens in use have gone. -/
structure Tracked (cfg : Config) (epoch : U64) (s : Server) (h : History) : Prop where
  consistent : Consistent cfg epoch s
  nodup : (s.removes.map Sub.channel_id).Nodup
  removes : ∀ sub ∈ s.removes, Holds s.reg sub ∧ sub.token ∈ h.selected
  live : ∀ c cur, s.reg.subs.lookup c = some cur → h.removed cur.token = none
  drawn : ∀ t r, h.removed t = some r → r ≤ s.clock ∧ t ∈ s.tokens
  snapshots : ∀ sub ∈ s.snapshots, Holds s.reg sub ∨ (h.removed sub.token).isSome
  subscribed : ∀ sub ∈ h.subscribed, Holds s.reg sub ∨ (h.removed sub.token).isSome
  unsubscribed : ∀ sub ∈ h.unsubscribed, Holds s.reg sub ∨ ∃ r, h.removed sub.token = some r ∧ Answerable s h sub r
  tombstones : ∀ t, t ∈ s.reg.unsub_pending → t ∈ h.selected
  confirming : ∀ token now challenge, Get.confirming token now challenge ∈ s.gets → now ≤ s.clock

theorem step_tokens {cfg : Config} {s s' : Server} {a : Action} (hstep : step cfg s a = some s') :
    s.tokens ⊆ s'.tokens := by
  cases step_effect hstep with
  | quiet _ _ _ _ tokens => exact tokens ▸ List.Subset.refl _
  | insert _ _ _ _ _ _ _ _ _ _ _ _ _ _ _ tokens => exact tokens ▸ List.subset_append_left _ _
  | merge _ _ _ _ _ _ _ _ _ _ _ tokens => exact tokens ▸ List.Subset.refl _
  | verify _ _ _ _ _ _ _ _ _ tokens => exact tokens ▸ List.Subset.refl _
  | expire _ _ _ _ _ _ _ _ _ tokens => exact tokens ▸ List.Subset.refl _
  | remove _ _ _ _ _ _ _ _ _ tokens => exact tokens ▸ List.Subset.refl _
  | forget _ _ _ _ _ _ _ _ _ _ tokens => exact tokens ▸ List.Subset.refl _
  | save _ _ _ _ tokens => exact tokens ▸ List.Subset.refl _
  | restart _ _ _ _ _ _ tokens => exact tokens ▸ List.Subset.refl _

/-- Between restarts, a token that is live was live before, for the same channel, or is new. -/
theorem step_live {cfg : Config} {s s' : Server} {a : Action} (hs : Consistent cfg epoch s)
    (hstep : step cfg s a = some s')
    (hrestart : ∀ cache, a ≠ .restart cache) {c : Text} {cur : Sub} (hcur : s'.reg.subs.lookup c = some cur) :
    cur.token ∉ s.tokens ∨ ∃ old, s.reg.subs.lookup c = some old ∧ old.token = cur.token := by
  have hupdate : ∀ {sub old : Sub}, s.reg.subs.lookup sub.channel_id = some old → sub.token = old.token →
      (s.reg.update sub).subs.lookup c = some cur → ∃ old, s.reg.subs.lookup c = some old ∧ old.token = cur.token := by
    intro sub old hold htoken hcur
    obtain ⟨rfl, rfl⟩ | ⟨_, hcur⟩ := lookup_update.mp hcur
    · exact ⟨old, hold, htoken.symm⟩
    · exact ⟨cur, hcur, rfl⟩
  cases step_effect hstep with
  | quiet clock reg disk grants tokens snapshots => exact Or.inr ⟨cur, reg ▸ hcur, rfl⟩
  | insert cid token secret now holder adds removes action held time fresh clock reg disk grants tokens snapshots =>
    rw [reg] at hcur
    obtain ⟨_, rfl⟩ | ⟨_, hcur⟩ := lookup_insert.mp hcur
    · exact Or.inl fresh
    · exact Or.inr ⟨cur, hcur, rfl⟩
  | merge before after old action snapshot outcome stored same clock saved grants tokens snapshots =>
    rw [saved.1] at hcur
    refine Or.inr (hupdate (by rwa [write_back_channel_id]) ?_ hcur)
    rw [write_back_token, same]
  | verify cid old lease action stored capped clock saved grants tokens snapshots =>
    obtain rfl := hs.memory.keyed cid old stored
    rw [saved.1] at hcur
    have hold : s.reg.subs.lookup (verified old lease s.clock).channel_id = some old := stored
    exact Or.inr (hupdate hold rfl hcur)
  | expire now last_sig action pc reg lapsed clock saved grants tokens snapshots =>
    rw [saved.1, expire_lapsed_spec hs.memory.keyed lapsed] at hcur
    obtain ⟨old, hold, rfl⟩ := Option.map_eq_some_iff.mp hcur
    refine Or.inr ⟨old, hold, ?_⟩
    split <;> rfl
  | remove holder sub removes action held reg clock disk grants tokens snapshots =>
    exact Or.inr ⟨cur, ((lookup_remove reg).mp hcur).2, rfl⟩
  | forget i token now challenge action confirming clock reg disk grants tokens snapshots =>
    rw [reg] at hcur
    exact Or.inr ⟨cur, hcur, rfl⟩
  | save action clock saved grants tokens snapshots => exact Or.inr ⟨cur, saved.1 ▸ hcur, rfl⟩
  | restart cache action clock reg disk grants tokens snapshots => exact absurd action (hrestart cache)

/-- Only a removal, a confirmation and a restart change which removed tokens still answer. -/
theorem step_unsub_pending {cfg : Config} {s s' : Server} {a : Action} (hs : Consistent cfg epoch s)
    (hstep : step cfg s a = some s') (hremove : a ≠ .reconcile_remove) (hforget : ∀ i, a ≠ .get_forget i)
    (hrestart : ∀ cache, a ≠ .restart cache) : s'.reg.unsub_pending = s.reg.unsub_pending := by
  cases step_effect hstep with
  | quiet clock reg disk grants tokens snapshots => rw [reg]
  | insert cid token secret now holder adds removes action held time fresh clock reg disk grants tokens snapshots =>
    rw [reg]
    rfl
  | merge before after cur action snapshot outcome stored same clock saved grants tokens snapshots =>
    rw [saved.1]
    rfl
  | verify cid cur lease action stored capped clock saved grants tokens snapshots =>
    rw [saved.1]
    rfl
  | expire now last_sig action pc reg lapsed clock saved grants tokens snapshots =>
    rw [saved.1, (expire_indexed hs.memory lapsed).2]
  | remove holder sub removes action held reg clock disk grants tokens snapshots => exact absurd action hremove
  | forget i token now challenge action confirming clock reg disk grants tokens snapshots =>
    exact absurd action (hforget i)
  | save action clock saved grants tokens snapshots => rw [saved.1]
  | restart cache action clock reg disk grants tokens snapshots => exact absurd action (hrestart cache)

/-- Two copies of the subscription of one channel have the same token. -/
theorem Holds.same {reg : Registry} {sub sub' : Sub} (h : Holds reg sub) (h' : Holds reg sub')
    (hchannel : sub.channel_id = sub'.channel_id) : sub.token = sub'.token ∧ sub.topic = sub'.topic := by
  obtain ⟨cur, hcur, htoken, htopic⟩ := h
  obtain ⟨cur', hcur', htoken', htopic'⟩ := h'
  rw [hchannel, hcur', Option.some.injEq] at hcur
  subst hcur
  exact ⟨htoken.symm.trans htoken', htopic.symm.trans htopic'⟩

/-- A token is removed once: between restarts the time of its removal stays. -/
theorem Tracked.removed_step {cfg : Config} {s s' : Server} {h : History} {a : Action} (hs : Tracked cfg epoch s h)
    (hstep : step cfg s a = some s') (hrestart : ∀ cache, a ≠ .restart cache) {t : Text} {r : U64}
    (hr : h.removed t = some r) : (h.record s a).removed t = some r := by
  by_cases hremove : a = .reconcile_remove
  · subst hremove
    obtain ⟨holder, copy, removes, reg, hlock, _, _⟩ := remove_spec hstep
    have hcopy : copy ∈ s.removes := by simp [Server.removes, hlock]
    obtain ⟨⟨cur, hcur, htoken, _⟩, _⟩ := hs.removes copy hcopy
    simp only [History.record, hlock]
    rw [Function.update_of_ne, hr]
    rintro rfl
    rw [← htoken, hs.live _ cur hcur] at hr
    cases hr
  · rwa [record_removed h s hremove hrestart]

/-- A subscription that the registry no longer holds was removed. -/
theorem Tracked.holds_or_removed {cfg : Config} {s s' : Server} {h : History} {a : Action}
    (hs : Tracked cfg epoch s h)
    (hstep : step cfg s a = some s') (hrestart : ∀ cache, a ≠ .restart cache) {sub : Sub}
    (hsub : Holds s.reg sub ∨ (h.removed sub.token).isSome) :
    Holds s'.reg sub ∨ ((h.record s a).removed sub.token).isSome := by
  obtain hholds | hremoved := hsub
  · refine (step_holds hs.consistent hstep hrestart hholds).imp_right ?_
    rintro ⟨holder, copy, removes, rfl, hlock, hchannel⟩
    have hcopy : copy ∈ s.removes := by simp [Server.removes, hlock]
    have htoken := ((hs.removes copy hcopy).1.same hholds hchannel).1
    simp [History.record, hlock, htoken]
  · obtain ⟨r, hr⟩ := Option.isSome_iff_exists.mp hremoved
    exact Or.inr (hs.removed_step hstep hrestart hr ▸ rfl)

theorem insert_spec {cfg : Config} {s s' : Server} {token secret : Bytes} {now : U64}
    (hstep : step cfg s (.reconcile_insert token secret now) = some s') {holder : Holder} {cid : Text}
    {adds : List Text} {removes : List Sub}
    (hlock : s.reconcile_lock = some (holder, .pausing (cid :: adds) removes)) :
    Holds s'.reg (new_sub cid token secret now) := by
  simp only [step, hlock] at hstep
  split at hstep <;> cases hstep
  exact ⟨new_sub cid token secret now, lookup_insert.mpr (Or.inl ⟨rfl, rfl⟩), rfl, rfl⟩

theorem Tracked.snapshots_step {cfg : Config} {s s' : Server} {h : History} {a : Action} (hs : Tracked cfg epoch s h)
    (hstep : step cfg s a = some s') (hrestart : ∀ cache, a ≠ .restart cache) :
    ∀ sub ∈ s'.snapshots, Holds s'.reg sub ∨ ((h.record s a).removed sub.token).isSome := by
  intro sub hsub
  have hkept : ∀ copy ∈ s.snapshots, Holds s'.reg copy ∨ ((h.record s a).removed copy.token).isSome :=
    fun copy hcopy => hs.holds_or_removed hstep hrestart (hs.snapshots copy hcopy)
  cases step_effect hstep with
  | quiet clock reg disk grants tokens snapshots =>
    obtain hold | hvalue | ⟨old, hold, rfl⟩ := snapshots sub hsub
    · exact hkept sub hold
    · obtain ⟨c, hc⟩ := mem_values.mp hvalue
      exact Or.inl (Holds.of_lookup (reg ▸ hs.consistent.memory.keyed) (reg ▸ hc))
    · exact hkept old hold
  | insert cid token secret now holder adds removes action held time fresh clock reg disk grants tokens snapshots =>
    obtain hold | rfl := snapshots sub hsub
    · exact hkept sub hold
    · subst action
      exact Or.inl (insert_spec hstep held)
  | merge before after cur action snapshot outcome stored same clock saved grants tokens snapshots =>
    exact hkept sub (snapshots hsub)
  | verify cid cur lease action stored capped clock saved grants tokens snapshots => exact hkept sub (snapshots hsub)
  | expire now last_sig action pc reg lapsed clock saved grants tokens snapshots => exact hkept sub (snapshots hsub)
  | remove holder sub removes action held reg clock disk grants tokens snapshots => exact hkept _ (snapshots hsub)
  | forget i token now challenge action confirming clock reg disk grants tokens snapshots =>
    exact hkept sub (snapshots hsub)
  | save action clock saved grants tokens snapshots => exact hkept sub (snapshots hsub)
  | restart cache action clock reg disk grants tokens snapshots => exact absurd action (hrestart cache)

theorem Tracked.subscribed_step {cfg : Config} {s s' : Server} {h : History} {a : Action} (hs : Tracked cfg epoch s h)
    (hstep : step cfg s a = some s') (hrestart : ∀ cache, a ≠ .restart cache) :
    ∀ sub ∈ (h.record s a).subscribed, Holds s'.reg sub ∨ ((h.record s a).removed sub.token).isSome := by
  intro sub hsub
  obtain hold | hsnapshot | ⟨holder, cid, adds, removes, token, secret, now, rfl, hlock, rfl⟩ :=
    mem_record_subscribed hsub
  · exact hs.holds_or_removed hstep hrestart (hs.subscribed sub hold)
  · exact hs.holds_or_removed hstep hrestart (hs.snapshots sub hsnapshot)
  · exact Or.inl (insert_spec hstep hlock)

theorem lookup_sweep {reg : Registry} {now : U64} {t : Text} {entry : Text × U64} :
    (reg.sweep_unsub now).unsub_pending.lookup t = some entry ↔
      reg.unsub_pending.lookup t = some entry ∧ now < entry.2 := by
  rw [Registry.sweep_unsub, lookup_retain_eq_some, decide_eq_true_eq]

/-- The tombstone of a removal. -/
theorem lookup_removed {reg reg' : Registry} {c : Text} {now : U64} (hremove : reg.remove c now = some reg')
    {cur : Sub}
    (hcur : reg.subs.lookup c = some cur) :
    ∃ deadline, deadline.val = now.val + UNSUB_GRACE ∧
      ∀ t entry, reg'.unsub_pending.lookup t = some entry ↔
        now < entry.2 ∧ ((t = cur.token ∧ entry = (cur.topic, deadline)) ∨
          (t ≠ cur.token ∧ reg.unsub_pending.lookup t = some entry)) := by
  simp only [Registry.remove, hcur] at hremove
  split at hremove
  · rename_i deadline hdeadline
    rw [Option.some.injEq] at hremove
    subst hremove
    refine ⟨deadline, checked_add_eq_some.mp hdeadline, fun t entry => ?_⟩
    rw [lookup_sweep, lookup_insert_eq_some, and_comm]
  · cases hremove

/-- What a confirmation does, and to whom. -/
theorem forget_spec {cfg : Config} {s s' : Server} {i : Nat} (hstep : step cfg s (.get_forget i) = some s') :
    ∃ token now challenge, s.gets[i]? = some (Get.confirming token now challenge) ∧
      s' = { s with reg := s.reg.forget_unsub token now, gets := s.gets.set i (.answered (some challenge)) } := by
  simp only [step] at hstep
  split at hstep
  · rename_i token now challenge hconfirming
    exact ⟨token, now, challenge, hconfirming, (Option.some.inj hstep).symm⟩
  · cases hstep

/-- Until the grace period is over, a removed token answers or has been confirmed. -/
theorem Answerable.step {cfg : Config} {s s' : Server} {h : History} {a : Action} {sub : Sub} {r : U64}
    (hanswer : Answerable s h sub r) (hs : Tracked cfg epoch s h) (hstep : step cfg s a = some s')
    (hrestart : ∀ cache, a ≠ .restart cache) (hr : h.removed sub.token = some r) :
    Answerable s' (h.record s a) sub r := by
  have hclock := Fin.le_def.mp (step_clock hstep)
  by_cases hremove : a = .reconcile_remove
  · subst hremove
    obtain ⟨holder, copy, removes, reg, hlock, hreg, rfl⟩ := remove_spec hstep
    have hcopy : copy ∈ s.removes := by simp [Server.removes, hlock]
    obtain ⟨⟨cur, hcur, hcurtoken, _⟩, _⟩ := hs.removes copy hcopy
    have hne : sub.token ≠ cur.token := by
      intro heq
      rw [heq, hs.live _ cur hcur] at hr
      cases hr
    obtain hconfirmed | hgrace | ⟨deadline, htombstone, hdeadline⟩ := hanswer
    · exact Or.inl (confirmed_subset h s (by simp) hconfirmed)
    · exact Or.inr (Or.inl hgrace)
    · by_cases hlt : s.clock < deadline
      · obtain ⟨_, _, hlookup⟩ := lookup_removed hreg hcur
        exact Or.inr (Or.inr ⟨deadline, (hlookup _ _).mpr ⟨hlt, Or.inr ⟨hne, htombstone⟩⟩, hdeadline⟩)
      · rw [Fin.lt_def, hdeadline, not_lt] at hlt
        exact Or.inr (Or.inl hlt)
  · obtain hconfirmed | hgrace | ⟨deadline, htombstone, hdeadline⟩ := hanswer
    · exact Or.inl (confirmed_subset h s hrestart hconfirmed)
    · exact Or.inr (Or.inl (hgrace.trans hclock))
    · by_cases hforget : ∃ i, a = .get_forget i
      · obtain ⟨i, rfl⟩ := hforget
        obtain ⟨token, now, challenge, hconfirming, rfl⟩ := forget_spec hstep
        by_cases htoken : token = sub.token
        · left
          simp [History.record, hconfirming, htoken]
        · right
          by_cases hlt : now < deadline
          · refine Or.inr ⟨deadline, lookup_sweep.mpr ⟨?_, hlt⟩, hdeadline⟩
            exact lookup_erase_eq_some.mpr ⟨fun heq => htoken heq.symm, htombstone⟩
          · have htime := Fin.le_def.mp (hs.confirming token now challenge (List.mem_of_getElem? hconfirming))
            rw [Fin.lt_def, hdeadline, not_lt] at hlt
            exact Or.inl (hlt.trans htime)
      · refine Or.inr (Or.inr ⟨deadline, ?_, hdeadline⟩)
        rwa [step_unsub_pending hs.consistent hstep hremove (not_exists.mp hforget) hrestart]

theorem Tracked.unsubscribed_step {cfg : Config} {s s' : Server} {h : History} {a : Action}
    (hs : Tracked cfg epoch s h)
    (hstep : step cfg s a = some s') (hrestart : ∀ cache, a ≠ .restart cache) :
    ∀ sub ∈ (h.record s a).unsubscribed,
      Holds s'.reg sub ∨ ∃ r, (h.record s a).removed sub.token = some r ∧ Answerable s' (h.record s a) sub r := by
  intro sub hsub
  have hbefore : Holds s.reg sub ∨ ∃ r, h.removed sub.token = some r ∧ Answerable s h sub r :=
    (mem_record_unsubscribed hsub).elim (hs.unsubscribed sub) fun hmem => Or.inl (hs.removes sub hmem).1
  obtain hholds | ⟨r, hr, hanswer⟩ := hbefore
  · refine (step_holds hs.consistent hstep hrestart hholds).imp_right ?_
    rintro ⟨holder, copy, removes, rfl, hlock, hchannel⟩
    obtain ⟨_, _, _, reg, hlock', hreg, rfl⟩ := remove_spec hstep
    obtain ⟨rfl, rfl, rfl⟩ : _ ∧ _ ∧ _ := by simpa [hlock] using hlock'
    have hcopy : copy ∈ s.removes := by simp [Server.removes, hlock]
    obtain ⟨hcopyholds, _⟩ := hs.removes copy hcopy
    obtain ⟨htoken, htopic⟩ := hcopyholds.same hholds hchannel
    obtain ⟨cur, hcur, hcurtoken, hcurtopic⟩ := hcopyholds
    obtain ⟨deadline, hdeadline, hlookup⟩ := lookup_removed hreg hcur
    refine ⟨s.clock, by simp [History.record, hlock, htoken], Or.inr (Or.inr ⟨deadline, ?_, hdeadline⟩)⟩
    refine (hlookup _ _).mpr ⟨?_, Or.inl ⟨htoken.symm.trans hcurtoken.symm, ?_⟩⟩
    · rw [Fin.lt_def, hdeadline, UNSUB_GRACE]
      omega
    · rw [hcurtopic, htopic]
  · exact Or.inr ⟨r, hs.removed_step hstep hrestart hr, hanswer.step hs hstep hrestart hr⟩

theorem Tracked.tombstones_step {cfg : Config} {s s' : Server} {h : History} {a : Action} (hs : Tracked cfg epoch s h)
    (hstep : step cfg s a = some s') {t : Text} (ht : t ∈ s'.reg.unsub_pending) : t ∈ (h.record s a).selected := by
  refine selected_subset h s a ?_
  by_cases hrestart : ∃ cache, a = .restart cache
  · obtain ⟨cache, rfl⟩ := hrestart
    cases hstep
    rw [load_unsub_pending] at ht
    exact absurd ht (AList.notMem_empty t)
  by_cases hremove : a = .reconcile_remove
  · subst hremove
    obtain ⟨holder, copy, removes, reg, hlock, hreg, rfl⟩ := remove_spec hstep
    have hcopy : copy ∈ s.removes := by simp [Server.removes, hlock]
    obtain ⟨⟨cur, hcur, htoken, _⟩, hselected⟩ := hs.removes copy hcopy
    obtain hold | ⟨cur', hcur', rfl⟩ := removed_of_remove hreg ht
    · exact hs.tombstones t hold
    · obtain rfl := Option.some.inj (hcur.symm.trans hcur')
      rwa [htoken]
  by_cases hforget : ∃ i, a = .get_forget i
  · obtain ⟨i, rfl⟩ := hforget
    obtain ⟨token, now, challenge, hconfirming, rfl⟩ := forget_spec hstep
    exact hs.tombstones t (AList.mem_erase.mp (mem_sweep_unsub ht)).2
  · rw [step_unsub_pending hs.consistent hstep hremove (not_exists.mp hforget) (not_exists.mp hrestart)] at ht
    exact hs.tombstones t ht

theorem Tracked.live_step {cfg : Config} {s s' : Server} {h : History} {a : Action} (hs : Tracked cfg epoch s h)
    (hstep : step cfg s a = some s') (hrestart : ∀ cache, a ≠ .restart cache) {c : Text} {cur : Sub}
    (hcur : s'.reg.subs.lookup c = some cur) : (h.record s a).removed cur.token = none := by
  by_cases hremove : a = .reconcile_remove
  · subst hremove
    obtain ⟨holder, copy, removes, reg, hlock, hreg, rfl⟩ := remove_spec hstep
    have hcopy : copy ∈ s.removes := by simp [Server.removes, hlock]
    obtain ⟨⟨gone, hgone, htoken, _⟩, _⟩ := hs.removes copy hcopy
    obtain ⟨hne, hcur⟩ := (lookup_remove hreg).mp hcur
    simp only [History.record, hlock]
    rw [Function.update_of_ne, hs.live c cur hcur]
    exact fun heq => hne (hs.consistent.memory.token_injective hcur hgone (heq.trans htoken.symm))
  · rw [record_removed h s hremove hrestart]
    obtain hnew | ⟨old, hold, htoken⟩ := step_live hs.consistent hstep hrestart hcur
    · cases hremoved : h.removed cur.token with
      | none => rfl
      | some r => exact absurd (hs.drawn _ r hremoved).2 hnew
    · rw [← htoken]
      exact hs.live c old hold

theorem step_tracked {cfg : Config} {s s' : Server} {h : History} {a : Action} (hs : Tracked cfg epoch s h)
    (hstep : step cfg s a = some s') : Tracked cfg epoch s' (h.record s a) := by
  have hconsistent := step_consistent hs.consistent hstep
  obtain ⟨hnodup, hremoves⟩ := step_removes hs.consistent hstep hs.nodup hs.removes
  have htombstones : ∀ t, t ∈ s'.reg.unsub_pending → t ∈ (h.record s a).selected := fun t => hs.tombstones_step hstep
  have hclock := step_clock hstep
  have hconfirming : ∀ token now challenge, Get.confirming token now challenge ∈ s'.gets → now ≤ s'.clock :=
    fun token now challenge hget => ((step_exchange hstep).confirming hget).elim
      (fun hold => (hs.confirming token now challenge hold).trans hclock) fun hnow => hnow.trans hclock
  by_cases hrestart : ∃ cache, a = .restart cache
  · obtain ⟨cache, rfl⟩ := hrestart
    have hsnapshots : s'.snapshots = [] := by
      cases hstep
      rfl
    refine ⟨hconsistent, hnodup, hremoves, fun _ _ _ => rfl, fun t r hr => (by cases hr), ?_, ?_, ?_,
      htombstones, hconfirming⟩
    · rw [hsnapshots]
      exact fun sub hsub => absurd hsub List.not_mem_nil
    · exact fun sub hsub => absurd hsub List.not_mem_nil
    · exact fun sub hsub => absurd hsub List.not_mem_nil
  have hkept := not_exists.mp hrestart
  refine ⟨hconsistent, hnodup, hremoves, fun c cur => hs.live_step hstep hkept, fun t r hr => ?_,
    hs.snapshots_step hstep hkept, hs.subscribed_step hstep hkept, hs.unsubscribed_step hstep hkept, htombstones,
    hconfirming⟩
  by_cases hremove : a = .reconcile_remove
  · subst hremove
    obtain ⟨holder, copy, removes, reg, hlock, hreg, rfl⟩ := remove_spec hstep
    have hcopy : copy ∈ s.removes := by simp [Server.removes, hlock]
    obtain ⟨⟨cur, hcur, htoken, _⟩, _⟩ := hs.removes copy hcopy
    simp only [History.record, hlock, Function.update_apply] at hr
    split at hr
    · rename_i heq
      cases hr
      rw [heq, ← htoken]
      exact ⟨le_rfl, hs.consistent.accounted.memory.drawn _ cur hcur⟩
    · exact hs.drawn t r hr
  · rw [record_removed h s hremove hkept] at hr
    obtain ⟨htime, hdrawn⟩ := hs.drawn t r hr
    exact ⟨htime.trans hclock, step_tokens hstep hdrawn⟩

theorem Tracked.init (cfg : Config) (clock : U64) (file : Option ChannelsFile) (cache : HashMap Text Text) :
    Tracked cfg clock (.init clock file cache) .empty where
  consistent := .init cfg clock file cache
  nodup := List.nodup_nil
  removes sub hsub := absurd hsub List.not_mem_nil
  live _ _ _ := rfl
  drawn t r hr := by cases hr
  snapshots sub hsub := absurd hsub List.not_mem_nil
  subscribed sub hsub := absurd hsub List.not_mem_nil
  unsubscribed sub hsub := absurd hsub List.not_mem_nil
  tombstones t ht := absurd ht (AList.notMem_empty t)
  confirming token now challenge hget := absurd hget List.not_mem_nil

theorem recorded_tracked {cfg : Config} {sh sh' : Server × History} {a : Action} (hs : Tracked cfg epoch sh.1 sh.2)
    (hstep : recorded cfg sh a = some sh') : Tracked cfg epoch sh'.1 sh'.2 := by
  obtain ⟨hserver, hrecord⟩ := machine.traced_eq_some.mp hstep
  exact hrecord ▸ step_tracked hs hserver

theorem tracked_of_run {cfg : Config} {clock : U64} {file : Option ChannelsFile}
    {cache : HashMap Text Text} {actions : List Action} {s : Server} {h : History}
    (hrun : machine.Run (recorded cfg) (.init clock file cache, .empty) actions (s, h)) : Tracked cfg clock s h :=
  hrun.invariant (fun sh => Tracked cfg clock sh.1 sh.2) (fun _ _ _ => recorded_tracked) (.init cfg clock file cache)

end yt_websub.server
