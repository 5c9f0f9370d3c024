import YtWebsub.Server.Confirmation
import YtWebsub.Server.Submission

open rust rust.utf8 rust.text rust.num rust.map
open yt_websub.subs yt_websub.renew yt_websub.callback

namespace yt_websub.server

/-- The two subscriptions have the same token, secret and topic. -/
structure SameKeys (old new : Sub) : Prop where
  token : new.token = old.token
  secret : new.secret = old.secret
  topic : new.topic = old.topic

@[refl]
theorem SameKeys.refl (s : Sub) : SameKeys s s := ⟨rfl, rfl, rfl⟩

@[symm]
theorem SameKeys.symm {a b : Sub} (h : SameKeys a b) : SameKeys b a :=
  ⟨h.token.symm, h.secret.symm, h.topic.symm⟩

@[trans]
theorem SameKeys.trans {a b c : Sub} (h : SameKeys a b) (h' : SameKeys b c) : SameKeys a c :=
  ⟨h'.token.trans h.token, h'.secret.trans h.secret, h'.topic.trans h.topic⟩

theorem SameKeys.write_back (cur s : Sub) : SameKeys s (write_back cur s) := by
  unfold renew.write_back
  split <;> exact ⟨rfl, rfl, rfl⟩

theorem Outcome.sameKeys {clock : U64} {before after : Sub} (h : Outcome clock before after) :
    SameKeys before after :=
  ⟨h.token, h.secret, h.topic⟩

/-- Every token in use was drawn, and a copy with the token of a stored subscription has its keys. -/
structure Current (s : Server) : Prop where
  keyed : s.reg.Keyed
  drawn : ∀ c cur, s.reg.subs.lookup c = some cur → cur.token ∈ s.tokens
  copied : ∀ sub ∈ s.snapshots, sub.token ∈ s.tokens
  copies : ∀ sub ∈ s.snapshots, ∀ cur, s.reg.subs.lookup sub.channel_id = some cur → cur.token = sub.token →
    SameKeys sub cur

/-- Between restarts, what a channel has was there before, with the same keys, or is new. -/
theorem Current.lookup_step {cfg : Config} {s s' : Server} {a : Action} (h : Current s)
    (hstep : step cfg s a = some s') (hrestart : ∀ cache, a ≠ .restart cache) {c : Text} {cur' : Sub}
    (hcur' : s'.reg.subs.lookup c = some cur') :
    cur'.channel_id = c ∧ ((∃ cur, s.reg.subs.lookup c = some cur ∧ SameKeys cur cur') ∨
      (cur'.token ∉ s.tokens ∧ cur'.token ∈ s'.tokens ∧
        ∃ holder adds removes, s.reconcile_lock = some (holder, .pausing (c :: adds) removes))) := by
  have hupdate : ∀ {sub old : Sub}, s.reg.subs.lookup sub.channel_id = some old → SameKeys old sub →
      (s.reg.update sub).subs.lookup c = some cur' →
      cur'.channel_id = c ∧ ∃ cur, s.reg.subs.lookup c = some cur ∧ SameKeys cur cur' := by
    intro sub old hold hkeys hcur
    obtain ⟨rfl, rfl⟩ | ⟨_, hcur⟩ := lookup_update.mp hcur
    · exact ⟨rfl, old, hold, hkeys⟩
    · exact ⟨h.keyed c cur' hcur, cur', hcur, .refl _⟩
  have hkept : s.reg.subs.lookup c = some cur' →
      cur'.channel_id = c ∧ ∃ cur, s.reg.subs.lookup c = some cur ∧ SameKeys cur cur' := fun hcur =>
    ⟨h.keyed c cur' hcur, cur', hcur, .refl _⟩
  cases step_effect hstep with
  | quiet clock reg disk grants tokens snapshots => exact (hkept (reg ▸ hcur')).imp_right Or.inl
  | insert cid token secret now holder adds removes action held time fresh clock reg disk grants tokens snapshots =>
    rw [reg] at hcur'
    obtain ⟨rfl, rfl⟩ | ⟨_, hcur⟩ := lookup_insert.mp hcur'
    · exact ⟨rfl, Or.inr ⟨fresh, tokens ▸ List.mem_append_right _ (List.mem_singleton_self _), holder, adds,
        removes, held⟩⟩
    · exact (hkept hcur).imp_right Or.inl
  | merge before after cur action snapshot outcome stored same clock saved grants tokens snapshots =>
    rw [saved.1] at hcur'
    have hbefore : SameKeys before cur :=
      h.copies before snapshot cur (outcome.channel_id ▸ stored) (same.trans outcome.token)
    refine (hupdate ?_ ((hbefore.symm.trans outcome.sameKeys).trans (.write_back cur after)) hcur').imp_right Or.inl
    rwa [write_back_channel_id]
  | verify cid cur lease action stored capped clock saved grants tokens snapshots =>
    obtain rfl := h.keyed cid cur stored
    rw [saved.1] at hcur'
    have hold : s.reg.subs.lookup (verified cur lease s.clock).channel_id = some cur := stored
    exact (hupdate hold ⟨rfl, rfl, rfl⟩ hcur').imp_right Or.inl
  | expire now last_sig action pc reg lapsed clock saved grants tokens snapshots =>
    rw [saved.1, expire_lapsed_spec h.keyed lapsed] at hcur'
    obtain ⟨cur, hcur, rfl⟩ := Option.map_eq_some_iff.mp hcur'
    have hchannel := h.keyed c cur hcur
    split
    · exact ⟨hchannel, Or.inl ⟨cur, hcur, rfl, rfl, rfl⟩⟩
    · exact ⟨hchannel, Or.inl ⟨cur, hcur, rfl, rfl, rfl⟩⟩
  | remove holder sub removes action held reg clock disk grants tokens snapshots =>
    exact (hkept ((lookup_remove reg).mp hcur').2).imp_right Or.inl
  | forget i token now challenge action confirming clock reg disk grants tokens snapshots =>
    rw [reg] at hcur'
    exact (hkept hcur').imp_right Or.inl
  | save action clock saved grants tokens snapshots => exact (hkept (saved.1 ▸ hcur')).imp_right Or.inl
  | restart cache action clock reg disk grants tokens snapshots => exact absurd action (hrestart cache)

/-- A copy comes from a copy, or from the registry. -/
theorem Current.snapshot_step {cfg : Config} {s s' : Server} {a : Action} (h : Current s)
    (hstep : step cfg s a = some s') {sub : Sub} (hsub : sub ∈ s'.snapshots) :
    (∃ old ∈ s.snapshots, old.channel_id = sub.channel_id ∧ SameKeys old sub) ∨
      (s'.reg.subs.lookup sub.channel_id = some sub ∧ sub.token ∈ s'.tokens) := by
  have hkept : s'.snapshots ⊆ s.snapshots →
      ∃ old ∈ s.snapshots, old.channel_id = sub.channel_id ∧ SameKeys old sub := fun hsubset =>
    ⟨sub, hsubset hsub, rfl, .refl _⟩
  cases step_effect hstep with
  | quiet clock reg disk grants tokens snapshots =>
    obtain hold | hvalue | ⟨old, hold, rfl⟩ := snapshots sub hsub
    · exact Or.inl ⟨sub, hold, rfl, .refl _⟩
    · obtain ⟨c, hc⟩ := mem_values.mp hvalue
      obtain rfl := h.keyed c sub hc
      exact Or.inr ⟨reg ▸ hc, tokens ▸ h.drawn _ sub hc⟩
    · exact Or.inl ⟨old, hold, rfl, rfl, rfl, rfl⟩
  | insert cid token secret now holder adds removes action held time fresh clock reg disk grants tokens snapshots =>
    obtain hold | rfl := snapshots sub hsub
    · exact Or.inl ⟨sub, hold, rfl, .refl _⟩
    · refine Or.inr ⟨?_, tokens ▸ List.mem_append_right _ (List.mem_singleton_self _)⟩
      rw [reg]
      exact lookup_insert.mpr (Or.inl ⟨rfl, rfl⟩)
  | merge _ _ _ _ _ _ _ _ _ _ _ _ snapshots => exact Or.inl (hkept snapshots)
  | verify _ _ _ _ _ _ _ _ _ _ snapshots => exact Or.inl (hkept snapshots)
  | expire _ _ _ _ _ _ _ _ _ _ snapshots => exact Or.inl (hkept snapshots)
  | remove _ _ _ _ _ _ _ _ _ _ snapshots => exact Or.inl (hkept snapshots)
  | forget _ _ _ _ _ _ _ _ _ _ _ snapshots => exact Or.inl (hkept snapshots)
  | save _ _ _ _ _ snapshots => exact Or.inl (hkept snapshots)
  | restart _ _ _ _ _ _ _ snapshots =>
    rw [snapshots] at hsub
    exact absurd hsub List.not_mem_nil

theorem Current.step {cfg : Config} {s s' : Server} {a : Action} (h : Current s)
    (hrestart : ∀ cache, a ≠ .restart cache) (hstep : step cfg s a = some s') : Current s' := by
  have htokens := step_tokens hstep
  refine ⟨fun c cur' hcur' => (h.lookup_step hstep hrestart hcur').1, fun c cur' hcur' => ?_, fun sub hsub => ?_,
    fun sub hsub cur' hcur' htoken => ?_⟩
  · obtain ⟨_, ⟨cur, hcur, hkeys⟩ | ⟨_, hdrawn, _⟩⟩ := h.lookup_step hstep hrestart hcur'
    · exact hkeys.token ▸ htokens (h.drawn c cur hcur)
    · exact hdrawn
  · obtain ⟨old, hold, _, hkeys⟩ | ⟨_, hdrawn⟩ := h.snapshot_step hstep hsub
    · exact hkeys.token ▸ htokens (h.copied old hold)
    · exact hdrawn
  · obtain ⟨old, hold, hchannel, hkeys⟩ | ⟨hstored, _⟩ := h.snapshot_step hstep hsub
    · obtain ⟨_, ⟨cur, hcur, hkeys'⟩ | ⟨hfresh, _, _⟩⟩ := h.lookup_step hstep hrestart hcur'
      · -- The copy is of the same subscription as before, whose keys have not changed.
        have hbefore : SameKeys old cur :=
          h.copies old hold cur (hchannel ▸ hcur) (hkeys'.token.symm.trans (htoken.trans hkeys.token))
        exact (hkeys.symm.trans hbefore).trans hkeys'
      · rw [htoken, hkeys.token] at hfresh
        exact absurd (h.copied old hold) hfresh
    · rw [hstored, Option.some.injEq] at hcur'
      exact hcur' ▸ .refl _

/-- The reconcile in progress means to subscribe to the channel, or to unsubscribe from it. -/
def Server.Touches (s : Server) (c : Text) : Prop :=
  match s.reconcile_lock with
  | none | some (_, .reading) => False
  | some (_, .diffing desired complete) =>
    (c ∈ desired ∧ c ∉ s.reg.subs) ∨ (complete = true ∧ c ∈ s.reg.subs ∧ c ∉ desired)
  | some (_, .pausing to_add to_remove) => c ∈ to_add ∨ c ∈ to_remove.map Sub.channel_id
  | some (_, .subscribing sub to_add to_remove) =>
    c = sub.channel_id ∨ c ∈ to_add ∨ c ∈ to_remove.map Sub.channel_id
  | some (_, .unsubscribing sub to_remove) => c ∈ (sub :: to_remove).map Sub.channel_id

/-- The subscription that the reconcile in progress has sent a request for. -/
def Server.request (s : Server) : Option Sub :=
  match s.reconcile_lock with
  | some (_, .subscribing sub _ _) | some (_, .unsubscribing sub _) => some sub
  | _ => none

/-- The steps of a reconcile itself, once it holds the lock. -/
def Action.own : Action → Bool
  | .reconcile_read _ _ | .reconcile_diff _ | .reconcile_insert _ _ _ | .reconcile_answer _ _ _ _
  | .reconcile_unsubscribe | .reconcile_remove | .reconcile_finish _ => true
  | _ => false

/-- A step of the reconcile sends nothing for the channel and changes nothing of its subscription. -/
def LeavesAlone (cfg : Config) (c : Text) (s : Server) (a : Action) : Prop :=
  a.own = true → ∀ s', step cfg s a = some s' →
    s'.reg.subs.lookup c = s.reg.subs.lookup c ∧ ∀ sub ∈ s'.request, sub.channel_id ≠ c

theorem leaves_alone_of_untouched {cfg : Config} {s : Server} {c : Text} (huntouched : ¬ s.Touches c) (a : Action) :
    LeavesAlone cfg c s a := by
  intro hown s' hstep
  unfold Server.Touches at huntouched
  cases a with
  | reconcile_read readable fetch =>
    simp only [step] at hstep
    split at hstep <;> cases hstep
    exact ⟨rfl, fun sub hsub => by cases hsub⟩
  | reconcile_diff removes =>
    simp only [step] at hstep
    repeat' split at hstep
    all_goals cases hstep
    exact ⟨rfl, fun sub hsub => by cases hsub⟩
  | reconcile_insert token secret now =>
    simp only [step] at hstep
    split at hstep
    · rename_i holder cid adds removes hheld
      split at hstep <;> cases hstep
      simp only [hheld, List.mem_cons, not_or] at huntouched
      refine ⟨AList.lookup_insert_ne huntouched.1.1, fun sub hsub => ?_⟩
      obtain rfl := Option.some.inj hsub
      exact Ne.symm huntouched.1.1
    · cases hstep
  | reconcile_answer res now drawn order =>
    simp only [step] at hstep
    split at hstep
    · rename_i holder copy adds removes hheld
      simp only [hheld, not_or] at huntouched
      split at hstep
      · cases hstep
        exact ⟨rfl, fun sub hsub => by cases hsub⟩
      · split at hstep
        · rename_i hwhy hnow
          obtain ⟨after, hafter, hmerge⟩ := Option.bind_eq_some_iff.mp hstep
          have hchannel := (refuse_new_outcome hwhy hnow hafter).channel_id
          obtain rfl | ⟨cur, _, _, _, _, rfl⟩ := merge_spec hmerge
          · exact ⟨rfl, fun sub hsub => by cases hsub⟩
          · refine ⟨AList.lookup_insert_ne ?_, fun sub hsub => by cases hsub⟩
            rw [write_back_channel_id, hchannel]
            exact huntouched.1
        · cases hstep
    · cases hstep
  | reconcile_unsubscribe =>
    simp only [step] at hstep
    split at hstep <;> cases hstep
    rename_i holder copy removes hheld
    simp only [hheld, List.map_cons, List.mem_cons, not_or] at huntouched
    refine ⟨rfl, fun sub hsub => ?_⟩
    obtain rfl := Option.some.inj hsub
    exact Ne.symm huntouched.2.1
  | reconcile_remove =>
    simp only [step] at hstep
    split at hstep
    · rename_i holder copy removes hheld
      simp only [hheld, List.map_cons, List.mem_cons, not_or] at huntouched
      obtain ⟨reg, hreg, rfl⟩ := Option.map_eq_some_iff.mp hstep
      refine ⟨Option.ext fun sub => ?_, fun sub hsub => by cases hsub⟩
      exact (lookup_remove hreg).trans (and_iff_right huntouched.1)
    · cases hstep
  | reconcile_finish order =>
    simp only [step] at hstep
    split at hstep
    · rename_i holder hheld
      obtain ⟨_, _, rfl⟩ := save_spec hstep
      cases holder <;> exact ⟨rfl, fun sub hsub => by cases hsub⟩
    · cases hstep
  | _ => cases hown

/-- What the reconcile does not touch stays so, whoever takes the next step, until the next one has read. -/
theorem Progress.untouched {s s' : Server} {a : Action} (h : Progress s a s') (hkeyed : s.reg.Keyed)
    (hread : ∀ readable fetch, a ≠ .reconcile_read readable fetch) {c : Text}
    (huntouched : ¬ s.Touches c) : ¬ s'.Touches c := by
  unfold Server.Touches at huntouched ⊢
  cases h with
  | other lock channels last_read => simpa only [lock, channels] using huntouched
  | taken holder free lock channels last_read => simp [lock]
  | read holder readable fetch content action file held lock channels last_read same =>
    exact absurd action (hread readable fetch)
  | diff holder desired complete removes action held removed lock channels last_read =>
    simp only [held, lock, not_or] at huntouched ⊢
    refine ⟨?_, fun hremoved => ?_⟩
    · rw [to_add, List.mem_filter, decide_eq_true_eq]
      exact huntouched.1
    · obtain ⟨sub, hsub, rfl⟩ := List.mem_map.mp hremoved
      rw [removed.mem_iff, to_remove] at hsub
      split at hsub
      · rename_i hcomplete
        obtain ⟨hvalue, hunwanted⟩ := List.mem_filter.mp hsub
        obtain ⟨c, hc⟩ := mem_values.mp hvalue
        obtain rfl := hkeyed c sub hc
        exact huntouched.2 ⟨hcomplete, AList.lookup_isSome.mp (hc ▸ rfl), of_decide_eq_true hunwanted⟩
      · cases hsub
  | insert holder cid token secret now adds removes held lock channels last_read =>
    have hchannel : (new_sub cid token secret now).channel_id = cid := rfl
    simpa only [held, lock, hchannel, List.mem_cons, or_assoc] using huntouched
  | answer holder sub adds removes held lock channels last_read =>
    simp only [held, lock] at huntouched ⊢
    exact fun htouched => huntouched (Or.inr htouched)
  | unsubscribe holder sub removes held lock channels last_read =>
    simp only [held, lock] at huntouched ⊢
    exact fun htouched => huntouched (Or.inr htouched)
  | remove holder sub removes action held lock channels last_read =>
    simp only [held, lock, List.map_cons, List.mem_cons, not_or] at huntouched ⊢
    exact ⟨List.not_mem_nil, huntouched.2⟩
  | finish holder held lock channels last_read => simp [lock]
  | restart action lock last_read renewal => simp [lock]

/-- Only a channel that a reconcile touches is added or removed. -/
theorem Progress.channels_of_untouched {s s' : Server} {a : Action} (h : Progress s a s')
    (hrestart : ∀ cache, a ≠ .restart cache) {c : Text} (huntouched : ¬ s.Touches c) :
    c ∈ s'.reg.subs ↔ c ∈ s.reg.subs := by
  unfold Server.Touches at huntouched
  cases h with
  | other lock channels last_read => exact channels c
  | insert holder cid token secret now adds removes held lock channels last_read =>
    simp only [held, List.mem_cons, not_or] at huntouched
    exact (channels c).trans (or_iff_right huntouched.1.1)
  | answer holder sub adds removes held lock channels last_read => exact channels c
  | remove holder sub removes action held lock channels last_read =>
    simp only [held, List.map_cons, List.mem_cons, not_or] at huntouched
    exact (channels c).trans (and_iff_right huntouched.1)
  | restart action lock last_read renewal =>
    obtain ⟨cache, rfl⟩ := action
    exact absurd rfl (hrestart cache)
  | taken holder free lock channels last_read => rw [channels]
  | read holder readable fetch content action file held lock channels last_read same => rw [channels]
  | diff holder desired complete removes action held removed lock channels last_read => rw [channels]
  | unsubscribe holder sub removes held lock channels last_read => rw [channels]
  | finish holder held lock channels last_read => rw [channels]

/-- An entry of the file resolved to the channel. -/
def Read.Yields (r : Read) (c : Text) : Prop :=
  ∃ content, r.content.bind decode = some content ∧ some c ∈ resolutions r.fetch 0 (active_lines content) r.cache

/-- The file could be read, and every entry of it resolved. -/
def Read.Whole (r : Read) : Prop :=
  ∃ content, r.content.bind decode = some content ∧ none ∉ resolutions r.fetch 0 (active_lines content) r.cache

/-- The two reconciles found the same file, and the same for every entry of it. -/
def Read.Same (r r' : Read) : Prop :=
  r'.content = r.content ∧ ∀ content, r.content.bind decode = some content →
    resolutions r'.fetch 0 (active_lines content) r'.cache = resolutions r.fetch 0 (active_lines content) r.cache

theorem Read.mem_desired_iff {r : Read} {c : Text} : c ∈ r.desired ↔ r.Yields c := by
  unfold Read.Yields
  cases hcontent : r.content.bind decode with
  | none => simp [Read.desired, desired_set, hcontent]
  | some content => simpa using r.mem_desired hcontent

theorem Read.Same.yields {r r' : Read} (h : r.Same r') (c : Text) : r'.Yields c ↔ r.Yields c := by
  unfold Read.Yields
  rw [h.1]
  apply exists_congr
  intro content
  apply and_congr_right
  intro hcontent
  rw [h.2 content hcontent]

theorem Read.Same.whole {r r' : Read} (h : r.Same r') : r'.Whole ↔ r.Whole := by
  unfold Read.Whole
  rw [h.1]
  apply exists_congr
  intro content
  apply and_congr_right
  intro hcontent
  rw [h.2 content hcontent]

/-- The channel is in the diff of what was read against the registry. -/
def Read.Changes (r : Read) (reg : Registry) (c : Text) : Prop :=
  (c ∈ r.desired ∧ c ∉ reg.subs) ∨ (r.complete = true ∧ c ∈ reg.subs ∧ c ∉ r.desired)

/-- No reconcile is in progress, or it has not read the file yet. -/
def Server.Unread (s : Server) : Prop :=
  ∀ held ∈ s.reconcile_lock, held.2 = .reading

instance (s : Server) : Decidable s.Unread :=
  inferInstanceAs (Decidable (∀ held ∈ s.reconcile_lock, held.2 = .reading))

/-- A reconcile has read the file. -/
def Server.Busy (s : Server) : Prop :=
  ∃ holder stage, s.reconcile_lock = some (holder, stage) ∧ stage ≠ .reading

/-- The actions after which the lock is free. -/
def Action.concludes : Action → Bool
  | .reconcile_finish _ | .restart _ => true
  | _ => false

theorem not_restart_of_concludes {a : Action} (ha : a.concludes = false) (cache : HashMap Text Text) :
    a ≠ .restart cache := by
  rintro rfl
  cases ha

theorem Server.Unread.untouched {s : Server} (h : s.Unread) (c : Text) : ¬ s.Touches c := by
  unfold Server.Touches
  cases hlock : s.reconcile_lock with
  | none => exact not_false
  | some held =>
    obtain ⟨holder, stage⟩ := held
    obtain rfl : stage = .reading := h _ hlock
    exact not_false

theorem lock_step {cfg : Config} {s s' : Server} {a : Action} (ha : a.concludes = false)
    (hstep : step cfg s a = some s') (hfree : s'.reconcile_lock = none) : s.reconcile_lock = none := by
  cases a <;> simp only [Action.concludes, Bool.true_eq_false] at ha
  case reconcile_answer res now drawn order =>
    simp only [step] at hstep
    repeat' split at hstep
    · cases hstep
      cases hfree
    · obtain ⟨after, _, hmerge⟩ := Option.bind_eq_some_iff.mp hstep
      rw [(Progress.of_merge hmerge).1] at hfree
      cases hfree
    all_goals cases hstep
  case reconcile_remove =>
    simp only [step] at hstep
    split at hstep
    · obtain ⟨reg, _, rfl⟩ := Option.map_eq_some_iff.mp hstep
      cases hfree
    · cases hstep
  case renewal_expire order =>
    simp only [step] at hstep
    repeat' split at hstep
    · cases hstep
      exact hfree
    · obtain ⟨_, _, rfl⟩ := save_spec hstep
      exact hfree
    · cases hstep
  case renewal_select order =>
    simp only [step] at hstep
    repeat' split at hstep
    · obtain ⟨_, _, rfl⟩ := Option.map_eq_some_iff.mp hstep
      exact hfree
    all_goals cases hstep
  case renewal_answer res now drawn order =>
    simp only [step] at hstep
    repeat' split at hstep
    · obtain ⟨after, _, hmerge⟩ := Option.bind_eq_some_iff.mp hstep
      rwa [(Progress.of_merge hmerge).1] at hfree
    all_goals cases hstep
  case get_verify i order =>
    simp only [step] at hstep
    repeat' split at hstep
    · cases hstep
      exact hfree
    · obtain ⟨_, _, rfl⟩ := save_spec hstep
      exact hfree
    · cases hstep
  all_goals
    simp only [step] at hstep
    repeat' split at hstep
    all_goals cases hstep
    all_goals first | exact hfree | cases hfree

/-- The file is read once: no step goes back before it. -/
theorem not_read_of_busy {cfg : Config} {s s' : Server} {a : Action} (hbusy : s.Busy)
    (hstep : step cfg s a = some s') (readable : Bool) (fetch : Nat → Text → Option Bytes) :
    a ≠ .reconcile_read readable fetch := by
  rintro rfl
  obtain ⟨holder, stage, hlock, hstage⟩ := hbusy
  simp only [step] at hstep
  split at hstep
  · rename_i hreading
    rw [hlock, Option.some.injEq, Prod.mk.injEq] at hreading
    exact hstage hreading.2
  · cases hstep

theorem Progress.busy {s s' : Server} {a : Action} (h : Progress s a s')
    (hlock : s'.reconcile_lock = none → s.reconcile_lock = none) (hbusy : s.Busy) :
    s'.Busy ∧ s'.last_read = s.last_read := by
  obtain ⟨holder, stage, hheld, hstage⟩ := hbusy
  have hsome : s'.reconcile_lock ≠ none := by
    intro hnone
    rw [hlock hnone] at hheld
    cases hheld
  cases h with
  | other lock channels last_read => exact ⟨⟨holder, stage, lock.trans hheld, hstage⟩, last_read⟩
  | taken holder free lock channels last_read =>
    rw [free] at hheld
    cases hheld
  | read holder readable fetch content action file held lock channels last_read same =>
    rw [held, Option.some.injEq, Prod.mk.injEq] at hheld
    exact absurd hheld.2.symm hstage
  | diff holder desired complete removes action held removed lock channels last_read =>
    exact ⟨⟨_, _, lock, Stage.noConfusion⟩, last_read⟩
  | insert holder cid token secret now adds removes held lock channels last_read =>
    exact ⟨⟨_, _, lock, Stage.noConfusion⟩, last_read⟩
  | answer holder sub adds removes held lock channels last_read =>
    exact ⟨⟨_, _, lock, Stage.noConfusion⟩, last_read⟩
  | unsubscribe holder sub removes held lock channels last_read =>
    exact ⟨⟨_, _, lock, Stage.noConfusion⟩, last_read⟩
  | remove holder sub removes action held lock channels last_read =>
    exact ⟨⟨_, _, lock, Stage.noConfusion⟩, last_read⟩
  | finish holder held lock channels last_read => exact absurd lock hsome
  | restart action lock last_read renewal => exact absurd lock hsome

/-- The end of a reconcile: it was done, and releasing the lock changes no subscription. -/
theorem finish_spec {cfg : Config} {s s' : Server} {order : List Sub}
    (hstep : step cfg s (.reconcile_finish order) = some s') :
    (∃ holder, s.reconcile_lock = some (holder, .pausing [] [])) ∧ s'.reconcile_lock = none ∧ s'.reg = s.reg ∧
      s'.last_read = s.last_read := by
  simp only [step] at hstep
  split at hstep
  · rename_i holder hheld
    obtain ⟨_, _, rfl⟩ := save_spec hstep
    exact ⟨⟨holder, hheld⟩, by cases holder <;> rfl, rfl, by cases holder <;> rfl⟩
  · cases hstep

/-- From the time that a reconcile has read the file to its end, it goes where it was led, and
touches no other channel. -/
theorem Server.Busy.run {cfg : Config} {s s' : Server} {rest : List Action} {order : List Sub} (hcurrent : Current s)
    (hbusy : s.Busy) (hrest : ∀ a ∈ rest, a.concludes = false)
    (hrun : machine.Run (step cfg) s (rest ++ [.reconcile_finish order]) s') :
    s'.last_read = s.last_read ∧ (∀ c, c ∈ s'.reg.subs ↔ s.Leads c) ∧
      ∀ c, ¬ s.Touches c →
        machine.Along (step cfg) (fun t _ => ¬ t.Touches c) s (rest ++ [.reconcile_finish order]) := by
  induction rest generalizing s with
  | nil =>
    rw [List.nil_append, machine.run_singleton] at hrun
    obtain ⟨⟨holder, hheld⟩, hfree, hreg, hread⟩ := finish_spec hrun
    refine ⟨hread, fun c => ?_, fun c huntouched => ⟨huntouched, fun _ _ => trivial⟩⟩
    simp [Server.Leads, hheld, hreg]
  | cons a rest ih =>
    obtain ⟨next, hstep, hnext⟩ := machine.run_cons.mp hrun
    obtain ⟨ha, hrest⟩ := List.forall_mem_cons.mp hrest
    have hrestart := not_restart_of_concludes ha
    have hread := not_read_of_busy hbusy hstep
    have hprogress := step_progress hcurrent.keyed hstep
    obtain ⟨hbusy', hlast⟩ := hprogress.busy (lock_step ha hstep) hbusy
    obtain ⟨hread', hchannels, huntouched'⟩ := ih (hcurrent.step hrestart hstep) hbusy' hrest hnext
    refine ⟨hread'.trans hlast, fun c => ?_, fun c huntouched => ?_⟩
    · rw [hchannels c]
      exact hprogress.leads hread hrestart hcurrent.keyed c
    · exact .cons huntouched hstep (huntouched' c (hprogress.untouched hcurrent.keyed hread huntouched))

/-- From before it reads to its end, a reconcile adds what it wants and does not find, removes what it
is sure not to want, and touches no other channel. -/
theorem Server.Unread.run {cfg : Config} {s s' : Server} {rest : List Action} {order : List Sub} (hcurrent : Current s)
    (hunread : s.Unread) (hrest : ∀ a ∈ rest, a.concludes = false)
    (hrun : machine.Run (step cfg) s (rest ++ [.reconcile_finish order]) s') {r : Read}
    (hr : s'.last_read = some r) (c : Text) :
    (c ∈ s'.reg.subs ↔ (c ∈ s.reg.subs ∨ c ∈ r.desired) ∧ (r.complete = true → c ∈ r.desired)) ∧
      (¬ r.Changes s.reg c →
        machine.Along (step cfg) (fun t _ => ¬ t.Touches c) s (rest ++ [.reconcile_finish order])) := by
  induction rest generalizing s with
  | nil =>
    rw [List.nil_append, machine.run_singleton] at hrun
    obtain ⟨⟨holder, hheld⟩, _⟩ := finish_spec hrun
    cases hunread _ hheld
  | cons a rest ih =>
    obtain ⟨next, hstep, hnext⟩ := machine.run_cons.mp hrun
    obtain ⟨ha, hrest⟩ := List.forall_mem_cons.mp hrest
    have hrestart := not_restart_of_concludes ha
    have hcurrent' := hcurrent.step hrestart hstep
    have hwait : next.Unread → (c ∈ next.reg.subs ↔ c ∈ s.reg.subs) →
        (c ∈ s'.reg.subs ↔ (c ∈ s.reg.subs ∨ c ∈ r.desired) ∧ (r.complete = true → c ∈ r.desired)) ∧
          (¬ r.Changes s.reg c →
            machine.Along (step cfg) (fun t _ => ¬ t.Touches c) s (a :: rest ++ [.reconcile_finish order])) := by
      intro hunread' hsame
      obtain ⟨hchannels, huntouched⟩ := ih hcurrent' hunread' hrest hnext
      simp only [Read.Changes, hsame] at hchannels huntouched
      exact ⟨hchannels, fun hunchanged => .cons (hunread.untouched c) hstep (huntouched hunchanged)⟩
    cases step_progress hcurrent.keyed hstep with
    | other lock channels last_read =>
      exact hwait (fun held hheld => hunread held (lock ▸ hheld)) (channels c)
    | taken holder free lock channels last_read =>
      refine hwait (fun held hheld => ?_) (by rw [channels])
      rw [lock, Option.mem_some] at hheld
      exact hheld ▸ rfl
    | read holder readable fetch content action file held lock channels last_read same =>
      obtain ⟨hlast, hchannels, huntouched⟩ :=
        Server.Busy.run hcurrent' ⟨holder, _, lock, Stage.noConfusion⟩ hrest hnext
      rw [hlast, last_read, Option.some.injEq] at hr
      obtain ⟨hdesired, hcomplete⟩ : (desired_set content fetch s.resolve_cache).1 = r.desired ∧
          (desired_set content fetch s.resolve_cache).2.1 = r.complete := by
        rw [← hr]
        exact ⟨rfl, rfl⟩
      rw [hdesired, hcomplete] at lock
      refine ⟨?_, fun hunchanged => .cons (hunread.untouched c) hstep (huntouched c ?_)⟩
      · simp only [hchannels c, Server.Leads, lock, channels]
      · simp only [Server.Touches, lock, channels]
        exact hunchanged
    | diff holder desired complete removes action held removed lock channels last_read => cases hunread _ held
    | insert holder cid token secret now adds removes held lock channels last_read => cases hunread _ held
    | answer holder sub adds removes held lock channels last_read => cases hunread _ held
    | unsubscribe holder sub removes held lock channels last_read => cases hunread _ held
    | remove holder sub removes action held lock channels last_read => cases hunread _ held
    | finish holder held lock channels last_read => cases hunread _ held
    | restart action lock last_read renewal =>
      obtain ⟨cache, rfl⟩ := action
      cases ha

/-- A reconcile from before it reads the file to its end, with what it read; the other threads go on
meanwhile. -/
structure Reconciled (cfg : Config) (s : Server) (actions : List Action) (r : Read) (s' : Server) : Prop where
  unread : s.Unread
  run : machine.Run (step cfg) s actions s'
  once : ∃ rest order, actions = rest ++ [.reconcile_finish order] ∧ ∀ a ∈ rest, a.concludes = false
  read : s'.last_read = some r

/-- The process has just been started, with any registry, whose tokens count as drawn. -/
structure Server.Started (s : Server) : Prop where
  keyed : s.reg.Keyed
  drawn : ∀ sub ∈ values s.reg.subs, sub.token ∈ s.tokens
  free : s.reconcile_lock = none
  starting : s.renewal = .starting

theorem Server.Started.current {s : Server} (h : s.Started) : Current s := by
  have hnone : s.snapshots = [] := by simp [Server.snapshots, h.free, h.starting, Renewal.snapshots]
  refine ⟨h.keyed, fun c cur hcur => h.drawn cur (mem_values.mpr ⟨c, hcur⟩), ?_, ?_⟩ <;> simp [hnone]

theorem Server.Started.init (clock : U64) (file : Option ChannelsFile) (cache : HashMap Text Text) :
    (Server.init clock file cache).Started where
  keyed c sub hsub := by simp [Server.init, Registry.empty] at hsub
  drawn sub hsub := by simp [Server.init, Registry.empty, values] at hsub
  free := rfl
  starting := rfl

/-- After any run, a restart leads to such a state again. -/
theorem Server.Started.restart {cfg : Config} {clock : U64} {file : Option ChannelsFile} {cache : HashMap Text Text}
    {actions : List Action} {s s' : Server} (hrun : machine.Run (step cfg) (.init clock file cache) actions s)
    {loaded : HashMap Text Text} (hstep : step cfg s (.restart loaded) = some s') : s'.Started := by
  have hconsistent := consistent_of_run hrun
  cases hstep
  refine ⟨hconsistent.stored.keyed, fun sub hsub => ?_, rfl, rfl⟩
  obtain ⟨c, hc⟩ := mem_values.mp hsub
  exact hconsistent.accounted.stored.drawn c sub hc

theorem Reconciled.uninterrupted {cfg : Config} {s s' : Server} {actions : List Action} {r : Read}
    (h : Reconciled cfg s actions r s') : Uninterrupted actions := by
  obtain ⟨rest, order, rfl, hrest⟩ := h.once
  intro cache hmem
  obtain hmem | hmem := List.mem_append.mp hmem
  · exact not_restart_of_concludes (hrest _ hmem) cache rfl
  · cases List.mem_singleton.mp hmem

theorem Reconciled.current {cfg : Config} {s s' : Server} {actions : List Action} {r : Read}
    (h : Reconciled cfg s actions r s') (hcurrent : Current s) : Current s' :=
  h.run.invariant_along Current (fun _ _ _ hs => hs.step) (h.uninterrupted.along s) hcurrent

theorem Reconciled.channels {cfg : Config} {s s' : Server} {actions : List Action} {r : Read}
    (h : Reconciled cfg s actions r s') (hcurrent : Current s) (c : Text) :
    c ∈ s'.reg.subs ↔ (c ∈ s.reg.subs ∨ r.Yields c) ∧ (r.Whole → r.Yields c) := by
  obtain ⟨rest, order, rfl, hrest⟩ := h.once
  rw [(h.unread.run hcurrent hrest h.run h.read c).1, Read.mem_desired_iff, Read.complete_iff]
  rfl

theorem Reconciled.untouched {cfg : Config} {s s' : Server} {actions : List Action} {r : Read}
    (h : Reconciled cfg s actions r s') (hcurrent : Current s) {c : Text} (hunchanged : ¬ r.Changes s.reg c) :
    machine.Along (step cfg) (fun t _ => ¬ t.Touches c) s actions := by
  obtain ⟨rest, order, rfl, hrest⟩ := h.once
  exact (h.unread.run hcurrent hrest h.run h.read c).2 hunchanged

/-- A subscription that no step touches keeps its keys, whatever the other threads write. -/
theorem Reconciled.keys {cfg : Config} {s s' : Server} {actions : List Action} {r : Read}
    (h : Reconciled cfg s actions r s') (hcurrent : Current s) {c : Text} {sub : Sub}
    (hsub : s.reg.subs.lookup c = some sub)
    (huntouched : machine.Along (step cfg) (fun t _ => ¬ t.Touches c) s actions) :
    ∃ sub', s'.reg.subs.lookup c = some sub' ∧ SameKeys sub sub' := by
  refine (h.run.invariant_along (fun t => Current t ∧ ∃ cur, t.reg.subs.lookup c = some cur ∧ SameKeys sub cur)
    (fun t a t' => ?_) (huntouched.and (h.uninterrupted.along s)) ⟨hcurrent, sub, hsub, .refl sub⟩).2
  rintro ⟨ht, cur, hcur, hkeys⟩ ⟨huntouched, hrestart⟩ hstep
  refine ⟨ht.step hrestart hstep, ?_⟩
  have hmem : c ∈ t'.reg.subs :=
    ((step_progress ht.keyed hstep).channels_of_untouched hrestart huntouched).mpr (AList.lookup_isSome.mp (hcur ▸ rfl))
  obtain ⟨cur', hcur'⟩ := Option.isSome_iff_exists.mp (AList.lookup_isSome.mpr hmem)
  refine ⟨cur', hcur', ?_⟩
  obtain ⟨_, ⟨old, hold, hkeys'⟩ | ⟨_, _, holder, adds, removes, hheld⟩⟩ := ht.lookup_step hstep hrestart hcur'
  · rw [hcur, Option.some.injEq] at hold
    subst hold
    exact hkeys.trans hkeys'
  · simp [Server.Touches, hheld] at huntouched

/-- A reconcile makes exactly the changes that the file asks for: the channels are the wanted ones, or none
is dropped while the file is in doubt; what stays keeps its keys and is left alone; and another reconcile that
finds the same does nothing. -/
theorem reconcile_exact {cfg : Config} {start s s' : Server} {before actions : List Action} {r : Read}
    (hstart : start.Started) (hbefore : machine.Run (step cfg) start before s) (hlife : Uninterrupted before)
    (h : Reconciled cfg s actions r s') :
    (r.Whole → ∀ c, c ∈ s'.reg.subs ↔ r.Yields c) ∧
      (¬ r.Whole → ∀ c, c ∈ s'.reg.subs ↔ c ∈ s.reg.subs ∨ r.Yields c) ∧
      (∀ c sub, s.reg.subs.lookup c = some sub → c ∈ s'.reg.subs →
        (∃ sub', s'.reg.subs.lookup c = some sub' ∧ SameKeys sub sub') ∧
          machine.Along (step cfg) (LeavesAlone cfg c) s actions) ∧
      ∀ actions' r' s'', Reconciled cfg s' actions' r' s'' → r.Same r' →
        ∀ c, machine.Along (step cfg) (LeavesAlone cfg c) s' actions' := by
  have hcurrent : Current s :=
    hbefore.invariant_along Current (fun _ _ _ hs => hs.step) (hlife.along start) hstart.current
  have hchannels := h.channels hcurrent
  refine ⟨fun hwhole c => ?_, fun hpartial c => ?_, fun c sub hsub hkept => ?_, fun actions' r' s'' h' hsame c => ?_⟩
  · rw [hchannels c]
    exact ⟨fun hc => hc.2 hwhole, fun hc => ⟨Or.inr hc, fun _ => hc⟩⟩
  · rw [hchannels c]
    exact and_iff_left fun hwhole => absurd hwhole hpartial
  · have hmem : c ∈ s.reg.subs := AList.lookup_isSome.mp (hsub ▸ rfl)
    have hunchanged : ¬ r.Changes s.reg c := by
      rintro (⟨_, hnew⟩ | ⟨hcomplete, _, hunwanted⟩)
      · exact hnew hmem
      · exact hunwanted (Read.mem_desired_iff.mpr (((hchannels c).mp hkept).2 (Read.complete_iff.mp hcomplete)))
    have huntouched := h.untouched hcurrent hunchanged
    exact ⟨h.keys hcurrent hsub huntouched, huntouched.mono fun _ a hc => leaves_alone_of_untouched hc a⟩
  · have hunchanged : ¬ r'.Changes s'.reg c := by
      rw [Read.Changes, Read.mem_desired_iff, Read.complete_iff, hsame.yields, hchannels c]
      rintro (⟨hwanted, hnew⟩ | ⟨hcomplete, ⟨_, hwhole⟩, hunwanted⟩)
      · exact hnew ⟨Or.inr hwanted, fun _ => hwanted⟩
      · exact hunwanted (hwhole (hsame.whole.mp hcomplete))
    exact (h'.untouched (h.current hcurrent) hunchanged).mono fun _ a hc => leaves_alone_of_untouched hc a

/-- How the loop comes to the second channel, and the reconcile that subscribes to it. -/
def noticingActions : List Action :=
  startupActions ++ [.renewal_sample, .edit twoChannelFile, .renewal_sample]

def extendingActions : List Action :=
  [.renewal_lock, .reconcile_read true (fun _ _ => none), .reconcile_diff [],
    .reconcile_insert [0x55, 0x66] [0x77, 0x88] 1, .reconcile_answer (.ok 202) 1 0 [],
    .reconcile_finish [firstSub, secondSub]]

theorem reconcile_exact_second_channel :
    ∃ s s' r, machine.Run (step ⟨864000⟩) (.init 1 (some oneChannelFile) ∅) noticingActions s ∧
      Reconciled ⟨864000⟩ s extendingActions r s' ∧ secondSub.channel_id ∈ s'.reg.subs ∧
      ∃ sub', s'.reg.subs.lookup firstSub.channel_id = some sub' ∧ SameKeys firstSub sub' := by
  obtain ⟨s, hrun, hs⟩ := machine.exists_run (step ⟨864000⟩)
    (show (noticingActions.foldlM (step ⟨864000⟩) (.init 1 (some oneChannelFile) ∅)).any (fun s =>
      decide (s.Unread ∧ s.reg.subs.lookup firstSub.channel_id = some firstSub) &&
        (extendingActions.foldlM (step ⟨864000⟩) s).any fun s' =>
          decide (s'.last_read.isSome ∧ firstSub.channel_id ∈ s'.reg.subs ∧ secondSub.channel_id ∈ s'.reg.subs)) = true
      by decide +kernel)
  rw [Bool.and_eq_true, decide_eq_true_eq] at hs
  obtain ⟨⟨hunread, hfirst⟩, hs⟩ := hs
  obtain ⟨s', hrun', hs'⟩ := machine.exists_run (step ⟨864000⟩) hs
  rw [decide_eq_true_eq] at hs'
  obtain ⟨hread, hkept, hsecond⟩ := hs'
  obtain ⟨r, hr⟩ := Option.isSome_iff_exists.mp hread
  have honce : ∃ rest order, extendingActions = rest ++ [.reconcile_finish order] ∧ ∀ a ∈ rest, a.concludes = false :=
    ⟨extendingActions.dropLast, [firstSub, secondSub], rfl, by simp [extendingActions, Action.concludes]⟩
  have hlife : Uninterrupted noticingActions := by simp [Uninterrupted, noticingActions, startupActions]
  have hreconciled : Reconciled ⟨864000⟩ s extendingActions r s' := ⟨hunread, hrun', honce, hr⟩
  exact ⟨s, s', r, hrun, hreconciled, hsecond,
    ((reconcile_exact (.init 1 _ ∅) hrun hlife hreconciled).2.2.1 _ firstSub hfirst hkept).1⟩

end yt_websub.server
