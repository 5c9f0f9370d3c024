import YtWebsub.Server.Index

open rust rust.utf8 rust.text rust.num rust.map
open yt_websub.subs yt_websub.renew yt_websub.callback

namespace yt_websub.server

variable {epoch : U64}

/-- What has happened in a run so far. All but `selected` is about the current process. -/
structure History where
  /-- The tokens that a reconcile has selected for removal. -/
  selected : List Text
  /-- The copies for which a subscribe request was sent. -/
  subscribed : List Sub
  /-- The copies for which an unsubscribe request was sent. -/
  unsubscribed : List Sub
  /-- When the subscription of a token was removed. -/
  removed : Text → Option U64
  /-- The tokens of removed subscriptions whose unsubscribe was confirmed. -/
  confirmed : List Text
  /-- When the hub last accepted a subscribe request that `renew_due` sent for a token. -/
  accepted : Text → Option U64

def History.empty : History where
  selected := []
  subscribed := []
  unsubscribed := []
  removed _ := none
  confirmed := []
  accepted _ := none

def History.record (h : History) (s : Server) : Action → History
  | .reconcile_diff removes => { h with selected := removes.map Sub.token ++ h.selected }
  | .reconcile_insert token secret now =>
    match s.reconcile_lock with
    | some (_, .pausing (cid :: _) _) => { h with subscribed := new_sub cid token secret now :: h.subscribed }
    | _ => h
  | .reconcile_unsubscribe =>
    match s.reconcile_lock with
    | some (_, .pausing [] (sub :: _)) => { h with unsubscribed := sub :: h.unsubscribed }
    | _ => h
  | .reconcile_remove =>
    match s.reconcile_lock with
    | some (_, .unsubscribing sub _) => { h with removed := Function.update h.removed sub.token (some s.clock) }
    | _ => h
  | .renewal_send =>
    match s.renewal with
    | .renewing _ (sub :: _) => { h with subscribed := sub :: h.subscribed }
    | _ => h
  | .renewal_answer res now _ _ =>
    match s.renewal, verdict res with
    | .sending _ sub _, none => { h with accepted := Function.update h.accepted sub.token (some now) }
    | _, _ => h
  | .get_forget i =>
    match s.gets[i]? with
    | some (.confirming token _ _) => { h with confirmed := token :: h.confirmed }
    | _ => h
  | .restart _ => { History.empty with selected := h.selected }
  | _ => h

/-- The server with its history. -/
abbrev recorded (cfg : Config) : machine.Step (Server × History) Action :=
  machine.traced (step cfg) History.record

/-- The runs with a history are the runs of the server. -/
theorem exists_run_recorded {cfg : Config} {s s' : Server} {h : History} {actions : List Action} :
    (∃ h', machine.Run (recorded cfg) (s, h) actions (s', h')) ↔ machine.Run (step cfg) s actions s' :=
  machine.exists_run_traced

/-- The registry holds the subscription that the copy was made of. -/
def Holds (reg : Registry) (sub : Sub) : Prop :=
  ∃ cur, reg.subs.lookup sub.channel_id = some cur ∧ cur.token = sub.token ∧ cur.topic = sub.topic

theorem Holds.of_lookup {reg : Registry} (hkeyed : reg.Keyed) {c : Text} {sub : Sub}
    (h : reg.subs.lookup c = some sub) : Holds reg sub :=
  ⟨sub, by rwa [hkeyed c sub h], rfl, rfl⟩

/-- A stored subscription is replaced by one with the same token and topic. -/
theorem Holds.update {reg : Registry} {s cur sub : Sub} (h : Holds reg sub)
    (hcur : reg.subs.lookup s.channel_id = some cur) (htoken : s.token = cur.token) (htopic : s.topic = cur.topic) :
    Holds (reg.update s) sub := by
  obtain ⟨held, hheld, hsame⟩ := h
  by_cases hc : sub.channel_id = s.channel_id
  · rw [hc, hcur, Option.some.injEq] at hheld
    subst hheld
    exact ⟨s, lookup_update.mpr (Or.inl ⟨hc, rfl⟩), htoken.trans hsame.1, htopic.trans hsame.2⟩
  · exact ⟨held, lookup_update.mpr (Or.inr ⟨hc, hheld⟩), hsame⟩

theorem Holds.expire {reg reg' : Registry} {sub : Sub} (h : Holds reg sub) (hkeyed : reg.Keyed) {now : U64}
    (hexpire : expire_lapsed reg now = some reg') : Holds reg' sub := by
  obtain ⟨held, hheld, htoken, htopic⟩ := h
  refine ⟨if lapsed now held then demoted held else held, ?_, ?_, ?_⟩
  · rw [expire_lapsed_spec hkeyed hexpire, hheld]
    rfl
  · split <;> exact htoken
  · split <;> exact htopic

/-- The copies that may still be written back have the topic of what they were made of. -/
theorem Consistent.topic {cfg : Config} {s : Server} (h : Consistent cfg epoch s) {before after cur : Sub}
    (hbefore : before ∈ s.snapshots) (houtcome : Outcome s.clock before after)
    (hcur : s.reg.subs.lookup after.channel_id = some cur) : after.topic = cur.topic := by
  have hcopy := (h.accounted.sound.snapshots before hbefore).topic
  have hstored := (h.accounted.sound.memory.sound _ cur hcur).topic
  rw [houtcome.topic, hcopy, hstored, h.memory.keyed _ cur hcur, houtcome.channel_id]

/-- A subscription stays in the registry until a reconcile removes it. -/
theorem step_holds {cfg : Config} {s s' : Server} {a : Action} (h : Consistent cfg epoch s)
    (hstep : step cfg s a = some s')
    (hrestart : ∀ cache, a ≠ .restart cache) {sub : Sub} (hsub : Holds s.reg sub) :
    Holds s'.reg sub ∨ ∃ holder copy removes, a = .reconcile_remove ∧
      s.reconcile_lock = some (holder, .unsubscribing copy removes) ∧ copy.channel_id = sub.channel_id := by
  cases step_effect hstep with
  | quiet clock reg disk grants tokens snapshots => exact Or.inl (reg ▸ hsub)
  | insert cid token secret now holder adds removes action held time fresh clock reg disk grants tokens snapshots =>
    left
    obtain ⟨cur, hcur, hsame⟩ := hsub
    refine ⟨cur, ?_, hsame⟩
    rw [reg]
    refine lookup_insert.mpr (Or.inr ⟨fun hc => ?_, hcur⟩)
    have hadds := h.missing
    rw [Server.Missing, held] at hadds
    rw [hc] at hcur
    exact hadds.2 cid List.mem_cons_self (AList.lookup_isSome.mp (hcur ▸ rfl))
  | merge before after cur action snapshot outcome stored same clock saved grants tokens snapshots =>
    left
    have htopic := h.topic snapshot outcome stored
    rw [saved.1]
    refine hsub.update (by rwa [write_back_channel_id]) ((write_back_token cur after).trans same.symm) ?_
    unfold write_back
    split <;> exact htopic
  | verify cid cur lease action stored capped clock saved grants tokens snapshots =>
    left
    obtain rfl := h.memory.keyed cid cur stored
    rw [saved.1]
    exact hsub.update stored rfl rfl
  | expire now last_sig action pc reg lapsed clock saved grants tokens snapshots =>
    left
    rw [saved.1]
    exact hsub.expire h.memory.keyed lapsed
  | remove holder copy removes action held reg clock disk grants tokens snapshots =>
    by_cases hc : copy.channel_id = sub.channel_id
    · exact Or.inr ⟨holder, copy, removes, action, held, hc⟩
    · obtain ⟨cur, hcur, hsame⟩ := hsub
      exact Or.inl ⟨cur, (lookup_remove reg).mpr ⟨fun heq => hc heq.symm, hcur⟩, hsame⟩
  | forget i token now challenge action confirming clock reg disk grants tokens snapshots => exact Or.inl (reg ▸ hsub)
  | save action clock saved grants tokens snapshots => exact Or.inl (saved.1 ▸ hsub)
  | restart cache action clock reg disk grants tokens snapshots => exact absurd action (hrestart cache)

/-- The subscriptions that the reconcile in progress has still to remove. -/
def Server.removes (s : Server) : List Sub :=
  match s.reconcile_lock with
  | some (_, .pausing _ to_remove) | some (_, .subscribing _ _ to_remove) => to_remove
  | some (_, .unsubscribing sub to_remove) => sub :: to_remove
  | _ => []

theorem selected_subset (h : History) (s : Server) (a : Action) : h.selected ⊆ (h.record s a).selected := by
  cases a with
  | reconcile_diff removes => exact List.subset_append_right _ _
  | _ =>
    simp only [History.record]
    repeat' split
    all_goals exact List.Subset.refl _

/-- Only a removal records one, and only a restart forgets one. -/
theorem record_removed (h : History) (s : Server) {a : Action} (hremove : a ≠ .reconcile_remove)
    (hrestart : ∀ cache, a ≠ .restart cache) : (h.record s a).removed = h.removed := by
  cases a with
  | reconcile_remove => exact absurd rfl hremove
  | restart cache => exact absurd rfl (hrestart cache)
  | _ =>
    simp only [History.record]
    repeat' split
    all_goals rfl

theorem confirmed_subset (h : History) (s : Server) {a : Action} (hrestart : ∀ cache, a ≠ .restart cache) :
    h.confirmed ⊆ (h.record s a).confirmed := by
  cases a with
  | restart cache => exact absurd rfl (hrestart cache)
  | get_forget i =>
    simp only [History.record]
    split
    · exact List.subset_cons_self _ _
    · exact List.Subset.refl _
  | _ =>
    simp only [History.record]
    repeat' split
    all_goals exact List.Subset.refl _

/-- A subscribe request is sent for a new subscription, or for a copy in the hands of the
renewal thread. -/
theorem mem_record_subscribed {h : History} {s : Server} {a : Action} {sub : Sub}
    (hsub : sub ∈ (h.record s a).subscribed) :
    sub ∈ h.subscribed ∨ sub ∈ s.snapshots ∨ ∃ holder cid adds removes token secret now,
      a = .reconcile_insert token secret now ∧ s.reconcile_lock = some (holder, .pausing (cid :: adds) removes) ∧
        sub = new_sub cid token secret now := by
  cases a with
  | reconcile_insert token secret now =>
    simp only [History.record] at hsub
    split at hsub
    · rename_i holder cid adds removes hlock
      obtain rfl | hold := List.mem_cons.mp hsub
      · exact Or.inr (Or.inr ⟨holder, cid, adds, removes, token, secret, now, rfl, hlock, rfl⟩)
      · exact Or.inl hold
    · exact Or.inl hsub
  | renewal_send =>
    simp only [History.record] at hsub
    split at hsub
    · rename_i last_sig copy candidates hrenewal
      obtain rfl | hold := List.mem_cons.mp hsub
      · exact Or.inr (Or.inl (by simp [Server.snapshots, Renewal.snapshots, hrenewal]))
      · exact Or.inl hold
    · exact Or.inl hsub
  | restart cache => exact absurd hsub List.not_mem_nil
  | _ =>
    left
    simp only [History.record] at hsub
    repeat' split at hsub
    all_goals exact hsub

theorem mem_record_unsubscribed {h : History} {s : Server} {a : Action} {sub : Sub}
    (hsub : sub ∈ (h.record s a).unsubscribed) : sub ∈ h.unsubscribed ∨ sub ∈ s.removes := by
  cases a with
  | reconcile_unsubscribe =>
    simp only [History.record] at hsub
    split at hsub
    · rename_i holder copy removes hlock
      obtain rfl | hold := List.mem_cons.mp hsub
      · exact Or.inr (by simp [Server.removes, hlock])
      · exact Or.inl hold
    · exact Or.inl hsub
  | restart cache => exact absurd hsub List.not_mem_nil
  | _ =>
    left
    simp only [History.record] at hsub
    repeat' split at hsub
    all_goals exact hsub

/-- What a removal does, and to whom. -/
theorem remove_spec {cfg : Config} {s s' : Server} (hstep : step cfg s .reconcile_remove = some s') :
    ∃ holder sub removes reg, s.reconcile_lock = some (holder, .unsubscribing sub removes) ∧
      s.reg.remove sub.channel_id s.clock = some reg ∧
      s' = { s with reg, reconcile_lock := some (holder, .pausing [] removes) } := by
  simp only [step] at hstep
  split at hstep
  · rename_i holder sub removes hlock
    obtain ⟨reg, hreg, rfl⟩ := Option.map_eq_some_iff.mp hstep
    exact ⟨holder, sub, removes, reg, hlock, hreg, rfl⟩
  · cases hstep

/-- The subscriptions selected for removal are in the registry until their turn comes. -/
theorem step_removes {cfg : Config} {s s' : Server} {a : Action} (hs : Consistent cfg epoch s)
    (hstep : step cfg s a = some s') {h : History} (hnodup : (s.removes.map Sub.channel_id).Nodup)
    (hremoves : ∀ sub ∈ s.removes, Holds s.reg sub ∧ sub.token ∈ h.selected) :
    (s'.removes.map Sub.channel_id).Nodup ∧
      ∀ sub ∈ s'.removes, Holds s'.reg sub ∧ sub.token ∈ (h.record s a).selected := by
  by_cases hremove : a = .reconcile_remove
  · subst hremove
    obtain ⟨holder, sub, removes, reg, hlock, hreg, rfl⟩ := remove_spec hstep
    simp only [Server.removes, hlock, List.map_cons, List.nodup_cons, List.mem_map, not_exists, not_and,
      List.forall_mem_cons] at hnodup hremoves
    refine ⟨hnodup.2, fun other hother => ?_⟩
    obtain ⟨⟨cur, hcur, hsame⟩, hselected⟩ := hremoves.2 other hother
    refine ⟨⟨cur, (lookup_remove hreg).mpr ⟨hnodup.1 other hother, hcur⟩, hsame⟩, selected_subset h s _ hselected⟩
  by_cases hrestart : ∃ cache, a = .restart cache
  · obtain ⟨cache, rfl⟩ := hrestart
    cases hstep
    exact ⟨List.nodup_nil, fun sub hsub => absurd hsub List.not_mem_nil⟩
  have hkept : ∀ sub ∈ s.removes, Holds s'.reg sub ∧ sub.token ∈ (h.record s a).selected := by
    intro sub hsub
    obtain ⟨hholds, hselected⟩ := hremoves sub hsub
    refine ⟨(step_holds hs hstep (not_exists.mp hrestart) hholds).resolve_right ?_, selected_subset h s a hselected⟩
    exact fun ⟨_, _, _, haction, _⟩ => hremove haction
  have hsame : s'.removes = s.removes → (s'.removes.map Sub.channel_id).Nodup ∧
      ∀ sub ∈ s'.removes, Holds s'.reg sub ∧ sub.token ∈ (h.record s a).selected := fun heq => heq ▸ ⟨hnodup, hkept⟩
  have hnone : s'.removes = [] → (s'.removes.map Sub.channel_id).Nodup ∧
      ∀ sub ∈ s'.removes, Holds s'.reg sub ∧ sub.token ∈ (h.record s a).selected := fun heq => by simp [heq]
  cases step_progress hs.memory.keyed hstep with
  | other lock channels last_read => exact hsame (by rw [Server.removes, Server.removes, lock])
  | taken holder free lock channels last_read => exact hnone (by rw [Server.removes, lock])
  | read holder readable fetch content action file held lock channels last_read same =>
    exact hnone (by rw [Server.removes, lock])
  | diff holder desired complete removes action held removed lock channels last_read =>
    have hmem : ∀ sub ∈ removes, sub ∈ values s.reg.subs := by
      intro sub hsub
      have hto_remove := removed.mem_iff.mp hsub
      rw [to_remove] at hto_remove
      split at hto_remove
      · exact List.mem_of_mem_filter hto_remove
      · exact absurd hto_remove List.not_mem_nil
    have hnodup' : ((to_remove s.reg desired complete).map Sub.channel_id).Nodup := by
      rw [to_remove]
      split
      · exact hs.memory.keyed.nodup_channels.sublist (List.filter_sublist.map _)
      · exact List.nodup_nil
    have hremoves' : s'.removes = removes := by rw [Server.removes, lock]
    rw [hremoves', action]
    refine ⟨(removed.map _).nodup_iff.mpr hnodup', fun sub hsub => ⟨?_, ?_⟩⟩
    · obtain ⟨c, hc⟩ := mem_values.mp (hmem sub hsub)
      obtain ⟨cur, hcur, hsame⟩ := Holds.of_lookup hs.memory.keyed hc
      exact ⟨cur, channels ▸ hcur, hsame⟩
    · exact List.mem_append_left _ (List.mem_map_of_mem hsub)
  | insert holder cid token secret now adds removes held lock channels last_read =>
    exact hsame (by rw [Server.removes, Server.removes, lock, held])
  | answer holder sub adds removes held lock channels last_read =>
    exact hsame (by rw [Server.removes, Server.removes, lock, held])
  | unsubscribe holder sub removes held lock channels last_read =>
    exact hsame (by rw [Server.removes, Server.removes, lock, held])
  | remove holder sub removes action held lock channels last_read => exact absurd action hremove
  | finish holder held lock channels last_read => exact hnone (by rw [Server.removes, lock])
  | restart action lock last_read renewal => exact hnone (by rw [Server.removes, lock])

/-- What the check for a removed subscription makes of a GET. -/
def Get.checked (token : Text) (now : U64) : Option Text → Get
  | some challenge => .confirming token now challenge
  | none => .answered none

/-- Everything a step can do to the GETs in progress. -/
inductive Exchange (cfg : Config) (s : Server) (a : Action) (s' : Server) : Prop where
  | other (gets : s'.gets = s.gets)
  | found (token query : Text) (sub : Sub) (action : a = .get_lookup token query)
      (live : s.reg.by_token token = some sub) (gets : s'.gets = s.gets ++ [.found sub query])
  | unknown (token query : Text) (action : a = .get_lookup token query) (gone : s.reg.by_token token = none)
      (gets : s'.gets = s.gets ++ [.unknown token query])
  | verify (i : Nat) (order : List Sub) (sub : Sub) (query : Text) (action : a = .get_verify i order)
      (found : s.gets[i]? = some (.found sub query))
      (gets : s'.gets = s.gets.set i (.answered (handle_verify sub query).2))
  | check (i : Nat) (token query : Text) (now : U64) (action : a = .get_unsub_topic i now)
      (unknown : s.gets[i]? = some (.unknown token query)) (time : now ≤ s.clock)
      (gets : s'.gets = s.gets.set i (.checked token now (finish_unsubscribe (s.reg.unsub_topic token now) query)))
  | confirm (i : Nat) (token : Text) (now : U64) (challenge : Text) (action : a = .get_forget i)
      (confirming : s.gets[i]? = some (.confirming token now challenge))
      (gets : s'.gets = s.gets.set i (.answered (some challenge)))
  | restart (cache : HashMap Text Text) (action : a = .restart cache) (gets : s'.gets = [])

theorem step_exchange {cfg : Config} {s s' : Server} {a : Action} (hstep : step cfg s a = some s') :
    Exchange cfg s a s' := by
  have hmerged : ∀ {t u : Server} {sub : Sub} {order : List Sub}, t.merge sub order = some u → u.gets = t.gets := by
    intro t u sub order hmerge
    obtain heq | ⟨_, _, _, _, _, heq⟩ := merge_spec hmerge <;> rw [heq]
  cases a with
  | get_lookup token query =>
    simp only [step] at hstep
    split at hstep
    · rename_i sub hsub
      cases hstep
      exact .found token query sub rfl hsub rfl
    · rename_i hnone
      cases hstep
      exact .unknown token query rfl hnone rfl
  | get_verify i order =>
    simp only [step] at hstep
    split at hstep
    · rename_i sub query hfound
      split at hstep
      · cases hstep
        exact .verify i order sub query rfl hfound rfl
      · obtain ⟨_, _, rfl⟩ := save_spec hstep
        exact .verify i order sub query rfl hfound rfl
    · cases hstep
  | get_unsub_topic i now =>
    simp only [step] at hstep
    split at hstep
    · rename_i token query hunknown
      split at hstep
      · rename_i htime
        split at hstep
        all_goals
          rename_i hfinish
          cases hstep
          exact .check i token query now rfl hunknown htime (by rw [hfinish, Get.checked])
      · cases hstep
    · cases hstep
  | get_forget i =>
    simp only [step] at hstep
    split at hstep
    · rename_i token now challenge hconfirming
      cases hstep
      exact .confirm i token now challenge rfl hconfirming rfl
    · cases hstep
  | restart cache =>
    cases hstep
    exact .restart cache rfl rfl
  | reconcile_answer res now drawn order =>
    simp only [step] at hstep
    split at hstep
    · split at hstep
      · cases hstep
        exact .other rfl
      · split at hstep
        · obtain ⟨after, _, hmerge⟩ := Option.bind_eq_some_iff.mp hstep
          exact .other ((hmerged hmerge).trans rfl)
        · cases hstep
    · cases hstep
  | renewal_answer res now drawn order =>
    simp only [step] at hstep
    split at hstep
    · split at hstep
      · obtain ⟨after, _, hmerge⟩ := Option.bind_eq_some_iff.mp hstep
        exact .other ((hmerged hmerge).trans rfl)
      · cases hstep
    · cases hstep
  | reconcile_remove =>
    obtain ⟨_, _, _, _, _, _, rfl⟩ := remove_spec hstep
    exact .other rfl
  | reconcile_finish order =>
    simp only [step] at hstep
    split at hstep
    · rename_i holder hlock
      obtain ⟨_, _, rfl⟩ := save_spec hstep
      cases holder <;> exact .other rfl
    · cases hstep
  | renewal_expire order =>
    simp only [step] at hstep
    split at hstep
    · split at hstep
      · cases hstep
        exact .other rfl
      · obtain ⟨_, _, rfl⟩ := save_spec hstep
        exact .other rfl
    · cases hstep
  | renewal_select order =>
    simp only [step] at hstep
    split at hstep
    · split at hstep
      · obtain ⟨_, _, rfl⟩ := Option.map_eq_some_iff.mp hstep
        exact .other rfl
      · cases hstep
    · cases hstep
  | _ =>
    simp only [step] at hstep
    repeat' split at hstep
    all_goals cases hstep
    all_goals exact .other rfl

/-- A GET in progress is an old one, or one step further. -/
theorem Exchange.mem {cfg : Config} {s s' : Server} {a : Action} (h : Exchange cfg s a s') {g : Get}
    (hget : g ∈ s'.gets) :
    g ∈ s.gets ∨ (∃ challenge, g = .answered challenge) ∨
      (∃ token query, s.reg.by_token token = none ∧ g = .unknown token query) ∨
      (∃ token query sub, s.reg.by_token token = some sub ∧ g = .found sub query) ∨
      ∃ token query now challenge, now ≤ s.clock ∧
        finish_unsubscribe (s.reg.unsub_topic token now) query = some challenge ∧
          g = .confirming token now challenge := by
  cases h with
  | other gets => exact Or.inl (gets ▸ hget)
  | found token query sub action live gets =>
    rw [gets, List.mem_append, List.mem_singleton] at hget
    exact hget.imp_right fun hnew => Or.inr (Or.inr (Or.inl ⟨token, query, sub, live, hnew⟩))
  | unknown token query action gone gets =>
    rw [gets, List.mem_append, List.mem_singleton] at hget
    exact hget.imp_right fun hnew => Or.inr (Or.inl ⟨token, query, gone, hnew⟩)
  | verify i order sub query action found gets =>
    rw [gets] at hget
    exact (List.mem_or_eq_of_mem_set hget).imp_right fun hnew => Or.inl ⟨_, hnew⟩
  | check i token query now action unknown time gets =>
    rw [gets] at hget
    refine (List.mem_or_eq_of_mem_set hget).imp_right fun hnew => ?_
    cases hfinish : finish_unsubscribe (s.reg.unsub_topic token now) query with
    | some challenge =>
      rw [hfinish] at hnew
      exact Or.inr (Or.inr (Or.inr ⟨token, query, now, challenge, time, hfinish, hnew⟩))
    | none =>
      rw [hfinish] at hnew
      exact Or.inl ⟨none, hnew⟩
  | confirm i token now challenge action confirming gets =>
    rw [gets] at hget
    exact (List.mem_or_eq_of_mem_set hget).imp_right fun hnew => Or.inl ⟨_, hnew⟩
  | restart cache action gets =>
    rw [gets] at hget
    cases hget

/-- A confirmation works with a time that was read before. -/
theorem Exchange.confirming {cfg : Config} {s s' : Server} {a : Action} (h : Exchange cfg s a s') {token : Text}
    {now : U64} {challenge : Text} (hget : Get.confirming token now challenge ∈ s'.gets) :
    Get.confirming token now challenge ∈ s.gets ∨ now ≤ s.clock := by
  obtain hold | ⟨_, hnew⟩ | ⟨_, _, _, hnew⟩ | ⟨_, _, _, _, hnew⟩ | ⟨_, _, _, _, htime, _, hnew⟩ := h.mem hget
  · exact Or.inl hold
  · cases hnew
  · cases hnew
  · cases hnew
  · cases hnew
    exact Or.inr htime

end yt_websub.server
