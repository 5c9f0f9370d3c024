import YtWebsub.Server.Tracking

open rust rust.utf8 rust.text rust.num rust.map
open yt_websub.util yt_websub.subs yt_websub.renew yt_websub.callback

namespace yt_websub.server

variable {epoch : U64}

/-- What a verification request asks for. -/
def hub_mode (query : Text) : Text :=
  (query_get query "hub.mode".toList).getD []

theorem handle_verify_subscribe {sub : Sub} {query : Text} (hmatches : verify_matches sub query = true)
    (hmode : hub_mode query = "subscribe".toList) :
    handle_verify sub query = (some sub.channel_id, some ((query_get query "hub.challenge".toList).getD [])) := by
  rw [hub_mode] at hmode
  simp only [handle_verify, hmatches, hmode, Bool.not_true, Bool.false_eq_true, if_false, if_true]

theorem handle_verify_unsubscribe {sub : Sub} {query : Text} (hmatches : verify_matches sub query = true)
    (hmode : hub_mode query = "unsubscribe".toList) :
    handle_verify sub query = (none, some ((query_get query "hub.challenge".toList).getD [])) := by
  have hne : ¬ "unsubscribe".toList = "subscribe".toList := by decide
  rw [hub_mode] at hmode
  simp only [handle_verify, hmatches, hmode, hne, Bool.not_true, Bool.false_eq_true, if_false, if_true]

theorem handle_verify_of_not_matches {sub : Sub} {query : Text} (hmatches : verify_matches sub query = false) :
    handle_verify sub query = (none, none) := by
  simp only [handle_verify, hmatches, Bool.not_false, if_true]

/-- A removed subscription is confirmed for nothing but an unsubscribe. -/
theorem finish_unsubscribe_mode {expected : Option Text} {query challenge : Text}
    (h : finish_unsubscribe expected query = some challenge) : hub_mode query = "unsubscribe".toList := by
  simp only [finish_unsubscribe] at h
  split at h
  · split at h
    · rename_i hquery
      exact hquery.1
    · cases h
  · cases h

/-- The critical section of a verification, where the registry is updated. -/
theorem verify_spec {cfg : Config} {s s' : Server} {i : Nat} {order : List Sub}
    (hstep : step cfg s (.get_verify i order) = some s') {sub : Sub} {query : Text}
    (hfound : s.gets[i]? = some (.found sub query)) :
    s'.gets[i]? = some (.answered (handle_verify sub query).2) ∧
      (s'.reg = s.reg ∧ ((handle_verify sub query).1.bind fun cid => s.reg.subs.lookup cid) = none ∨
        ∃ cid cur, (handle_verify sub query).1 = some cid ∧ s.reg.subs.lookup cid = some cur ∧
          s'.reg = s.reg.update (verified cur (granted_lease cfg.lease_seconds query) s.clock)) := by
  have hlt : i < s.gets.length := (List.getElem?_eq_some_iff.mp hfound).1
  simp only [step, hfound] at hstep
  split at hstep
  · rename_i hnone
    cases hstep
    exact ⟨by simp [hlt], Or.inl ⟨rfl, hnone⟩⟩
  · rename_i cur hcur
    obtain ⟨cid, hcid, hcur⟩ := Option.bind_eq_some_iff.mp hcur
    obtain ⟨_, _, rfl⟩ := save_spec hstep
    exact ⟨by simp [hlt], Or.inr ⟨cid, cur, hcid, hcur, rfl⟩⟩

/-- What the GETs in progress rely on. -/
structure Verifying (cfg : Config) (epoch : U64) (s : Server) (h : History) : Prop extends Tracked cfg epoch s h where
  found : ∀ sub query, Get.found sub query ∈ s.gets → Holds s.reg sub ∨ (h.removed sub.token).isSome
  selected : ∀ token now challenge, Get.confirming token now challenge ∈ s.gets → token ∈ h.selected

theorem mem_of_unsub_topic {reg : Registry} {token topic : Text} {now : U64}
    (h : reg.unsub_topic token now = some topic) : token ∈ reg.unsub_pending := by
  obtain ⟨entry, hentry, _⟩ := Option.map_eq_some_iff.mp h
  exact AList.lookup_isSome.mp (Option.isSome_of_mem (Option.filter_eq_some_iff.mp hentry).1)

theorem step_verifying {cfg : Config} {s s' : Server} {h : History} {a : Action} (hs : Verifying cfg epoch s h)
    (hstep : step cfg s a = some s') : Verifying cfg epoch s' (h.record s a) := by
  refine ⟨step_tracked hs.toTracked hstep, fun sub query hget => ?_, fun token now challenge hget => ?_⟩
  · by_cases hrestart : ∃ cache, a = .restart cache
    · obtain ⟨cache, rfl⟩ := hrestart
      cases hstep
      cases hget
    refine hs.holds_or_removed hstep (not_exists.mp hrestart) ?_
    obtain hold | ⟨_, hnew⟩ | ⟨_, _, _, hnew⟩ | ⟨token, _, _, hlive, hnew⟩ | ⟨_, _, _, _, _, _, hnew⟩ :=
      (step_exchange hstep).mem hget
    · exact hs.found sub query hold
    · cases hnew
    · cases hnew
    · cases hnew
      exact Or.inl (Holds.of_lookup hs.consistent.memory.keyed (hs.consistent.memory.by_token_eq_some.mp hlive).1)
    · cases hnew
  · refine selected_subset h s a ?_
    obtain hold | ⟨_, hnew⟩ | ⟨_, _, _, hnew⟩ | ⟨_, _, _, _, hnew⟩ | ⟨_, _, _, _, _, hfinish, hnew⟩ :=
      (step_exchange hstep).mem hget
    · exact hs.selected token now challenge hold
    · cases hnew
    · cases hnew
    · cases hnew
    · cases hnew
      cases htopic : s.reg.unsub_topic token now with
      | none => simp [htopic, finish_unsubscribe] at hfinish
      | some topic => exact hs.tombstones token (mem_of_unsub_topic htopic)

theorem Verifying.init (cfg : Config) (clock : U64) (file : Option ChannelsFile) (cache : HashMap Text Text) :
    Verifying cfg clock (.init clock file cache) .empty :=
  ⟨.init cfg clock file cache, fun _ _ hget => absurd hget List.not_mem_nil,
    fun _ _ _ hget => absurd hget List.not_mem_nil⟩

theorem recorded_verifying {cfg : Config} {sh sh' : Server × History} {a : Action}
    (hs : Verifying cfg epoch sh.1 sh.2)
    (hstep : recorded cfg sh a = some sh') : Verifying cfg epoch sh'.1 sh'.2 := by
  obtain ⟨hserver, hrecord⟩ := machine.traced_eq_some.mp hstep
  exact hrecord ▸ step_verifying hs hserver

theorem finish_unsubscribe_of_mode {expected : Option Text} {query : Text}
    (hmode : hub_mode query ≠ "unsubscribe".toList) :
    finish_unsubscribe expected query = none := by
  cases hfinish : finish_unsubscribe expected query with
  | none => rfl
  | some challenge => exact absurd (finish_unsubscribe_mode hfinish) hmode

/-- The tombstone check of a GET whose token was not live. -/
theorem check_spec {cfg : Config} {s s' : Server} {i : Nat} {now : U64}
    (hstep : step cfg s (.get_unsub_topic i now) = some s') {token query : Text}
    (hunknown : s.gets[i]? = some (.unknown token query)) :
    s'.reg = s.reg ∧
      s'.gets[i]? = some (.checked token now (finish_unsubscribe (s.reg.unsub_topic token now) query)) := by
  have hlt : i < s.gets.length := (List.getElem?_eq_some_iff.mp hunknown).1
  simp only [step, hunknown] at hstep
  split at hstep
  · split at hstep
    all_goals
      rename_i hfinish
      cases hstep
      simp [hlt, hfinish, Get.checked]
  · cases hstep

/-- A subscribe verification acts on the subscription whose token it carries: the lookup
finds that one; the challenge is echoed only where the registry still has the token, and
its subscription is then active; no other subscription changes. -/
def ActsOnToken (cfg : Config) (s : Server) : Action → Prop
  | .get_lookup token _ => ∀ sub, s.reg.by_token token = some sub → sub.token = token
  | .get_verify i order => ∀ sub query s', s.gets[i]? = some (.found sub query) →
      hub_mode query = "subscribe".toList → step cfg s (.get_verify i order) = some s' →
      (∀ challenge, s'.gets[i]? = some (.answered (some challenge)) →
        (∃ cur, s.reg.by_token sub.token = some cur) ∧
          ∃ cur, s'.reg.by_token sub.token = some cur ∧ cur.state = active) ∧
      ∀ c other, s.reg.subs.lookup c = some other → other.token ≠ sub.token → s'.reg.subs.lookup c = some other
  | .get_unsub_topic i now => ∀ token query s', s.gets[i]? = some (.unknown token query) →
      hub_mode query = "subscribe".toList → step cfg s (.get_unsub_topic i now) = some s' →
      s'.gets[i]? = some (.answered none) ∧ s'.reg = s.reg
  | _ => True

/-- No reconcile has removed the subscription that an acceptable subscribe verification
looked up. -/
def Undisturbed (sh : Server × History) : Action → Prop
  | .get_verify i _ => ∀ sub query, sh.1.gets[i]? = some (.found sub query) →
      hub_mode query = "subscribe".toList → verify_matches sub query = true → sh.2.removed sub.token = none
  | _ => True

theorem acts_on_token_lookup {cfg : Config} {s : Server} {h : History} (hs : Verifying cfg epoch s h)
    (token query : Text) :
    ActsOnToken cfg s (.get_lookup token query) :=
  fun _ hsub => (hs.consistent.memory.by_token_eq_some.mp hsub).2

theorem acts_on_token_check {cfg : Config} {s : Server} (i : Nat) (now : U64) :
    ActsOnToken cfg s (.get_unsub_topic i now) := by
  intro token query s' hunknown hmode hstep
  obtain ⟨hreg, hget⟩ := check_spec hstep hunknown
  have hother : hub_mode query ≠ "unsubscribe".toList := hmode ▸ by decide
  rw [finish_unsubscribe_of_mode hother] at hget
  exact ⟨hget, hreg⟩

/-- The subscription that was looked up is still there: it is activated, and nothing else
changes. -/
theorem Verifying.activates {cfg : Config} {s s' : Server} {h : History} (hs : Verifying cfg epoch s h) {i : Nat}
    {order : List Sub} (hstep : step cfg s (.get_verify i order) = some s') {sub : Sub} {query : Text}
    (hfound : s.gets[i]? = some (.found sub query)) (hmode : hub_mode query = "subscribe".toList)
    (hmatches : verify_matches sub query = true) (hremoved : h.removed sub.token = none) :
    (∃ cur, s.reg.by_token sub.token = some cur) ∧
      (∃ cur, s'.reg.by_token sub.token = some cur ∧ cur.state = active) ∧
      ∀ c other, s.reg.subs.lookup c = some other → other.token ≠ sub.token → s'.reg.subs.lookup c = some other := by
  have hholds := (hs.found sub query (List.mem_of_getElem? hfound)).resolve_right (by simp [hremoved])
  obtain ⟨cur, hcur, htoken, _⟩ := hholds
  have hchannel := hs.consistent.memory.keyed _ cur hcur
  have hcur' : s.reg.subs.lookup cur.channel_id = some cur := hchannel.symm ▸ hcur
  obtain ⟨_, hkept | ⟨cid, cur', hcid, hstored, hreg⟩⟩ := verify_spec hstep hfound
  · rw [handle_verify_subscribe hmatches hmode, Option.bind_some, hcur] at hkept
    cases hkept.2
  · rw [handle_verify_subscribe hmatches hmode, Option.some.injEq] at hcid
    subst hcid
    obtain rfl := Option.some.inj (hcur.symm.trans hstored)
    have hlookup : ∀ c other, s'.reg.subs.lookup c = some other ↔ _ := fun c other => by rw [hreg, lookup_update]
    refine ⟨⟨cur, hs.consistent.memory.by_token_eq_some.mpr ⟨hcur', htoken⟩⟩,
      ⟨verified cur (granted_lease cfg.lease_seconds query) s.clock, ?_, rfl⟩, fun c other hother hne => ?_⟩
    · have hindexed := (step_consistent hs.consistent hstep).memory
      exact hindexed.by_token_eq_some.mpr ⟨(hlookup _ _).mpr (Or.inl ⟨rfl, rfl⟩), htoken⟩
    · refine (hlookup c other).mpr (Or.inr ⟨fun hc => hne ?_, hother⟩)
      rw [show c = cur.channel_id from hc, hcur', Option.some.injEq] at hother
      exact hother ▸ htoken

theorem acts_on_token_iff {cfg : Config} {s s' : Server} {h : History} {a : Action} (hs : Verifying cfg epoch s h)
    (hstep : step cfg s a = some s') : ActsOnToken cfg s a ↔ Undisturbed (s, h) a := by
  cases a with
  | get_lookup token query => exact iff_of_true (acts_on_token_lookup hs token query) trivial
  | get_unsub_topic i now => exact iff_of_true (acts_on_token_check i now) trivial
  | get_verify i order =>
    constructor
    · intro hacts sub query hfound hmode hmatches
      have hget := (verify_spec hstep hfound).1
      rw [handle_verify_subscribe hmatches hmode] at hget
      obtain ⟨⟨cur, hcur⟩, _⟩ := (hacts sub query s' hfound hmode hstep).1 _ hget
      obtain ⟨hlive, htoken⟩ := hs.consistent.memory.by_token_eq_some.mp hcur
      exact htoken ▸ hs.live _ cur hlive
    · intro hundisturbed sub query s'' hfound hmode hstep'
      obtain rfl := Option.some.inj (hstep.symm.trans hstep')
      cases hmatches : verify_matches sub query with
      | true =>
        obtain ⟨hlive, hactive, hothers⟩ :=
          hs.activates hstep hfound hmode hmatches (hundisturbed sub query hfound hmode hmatches)
        exact ⟨fun _ _ => ⟨hlive, hactive⟩, hothers⟩
      | false =>
        obtain ⟨hget, hkept | ⟨cid, _, hcid, _⟩⟩ := verify_spec hstep hfound
        · rw [handle_verify_of_not_matches hmatches] at hget
          refine ⟨fun challenge hecho => ?_, fun c other hother _ => ?_⟩
          · rw [hget] at hecho
            cases hecho
          · rw [hkept.1]
            exact hother
        · rw [handle_verify_of_not_matches hmatches] at hcid
          cases hcid
  | _ => exact Iff.rfl

/-- Verifications act on their own subscriptions in exactly those runs in which none is
removed between the lookup and the update. -/
theorem verification_acts_on_token {cfg : Config} {clock : U64} {file : Option ChannelsFile}
    {cache : HashMap Text Text}
    {actions : List Action} {sh : Server × History}
    (hrun : machine.Run (recorded cfg) (.init clock file cache, .empty) actions sh) :
    machine.Along (recorded cfg) (fun sh => ActsOnToken cfg sh.1) (.init clock file cache, .empty) actions ↔
      machine.Along (recorded cfg) Undisturbed (.init clock file cache, .empty) actions :=
  hrun.along_congr (fun sh => Verifying cfg clock sh.1 sh.2) (fun _ _ _ => recorded_verifying)
    (fun _ _ _ hs hstep => acts_on_token_iff hs (machine.traced_eq_some.mp hstep).1) (.init cfg clock file cache)

instance (g : Option Get) (P : Sub → Text → Prop) [∀ sub query, Decidable (P sub query)] :
    Decidable (∀ sub query, g = some (.found sub query) → P sub query) :=
  match g with
  | some (.found sub query) => decidable_of_iff (P sub query) (by simp)
  | none | some (.unknown _ _) | some (.confirming _ _ _) | some (.answered _) => isTrue (by simp)

instance (sh : Server × History) : (a : Action) → Decidable (Undisturbed sh a)
  | .get_verify i _ =>
    inferInstanceAs (Decidable (∀ sub query, sh.1.gets[i]? = some (.found sub query) →
      hub_mode query = "subscribe".toList → verify_matches sub query = true → sh.2.removed sub.token = none))
  | .advance _ | .edit _ | .post_render _ | .post_write _ _ | .post_fail _ | .post_try_lock _ | .renewal_lock
  | .reconcile_read _ _ | .reconcile_diff _ | .reconcile_insert _ _ _ | .reconcile_answer _ _ _ _
  | .reconcile_unsubscribe | .reconcile_remove | .reconcile_finish _ | .renewal_sample | .renewal_wake
  | .renewal_expire _ | .renewal_select _ | .renewal_send | .renewal_answer _ _ _ _ | .renewal_sleep
  | .get_lookup _ _ | .get_unsub_topic _ _ | .get_forget _ | .restart _ => isTrue trivial

theorem verification_acts_on_token_verified :
    machine.Along (recorded ⟨864000⟩) (fun sh => ActsOnToken ⟨864000⟩ sh.1) (.init 1 (some oneChannelFile) ∅, .empty)
      verifiedActions := by
  obtain ⟨sh, hrun, _⟩ := machine.exists_run (recorded ⟨864000⟩)
    (show (verifiedActions.foldlM (recorded ⟨864000⟩)
      (.init 1 (some oneChannelFile) ∅, .empty)).any (fun _ => true) = true by
      decide +kernel)
  refine (verification_acts_on_token hrun).mpr ?_
  decide +kernel

/-- The channel is dropped by one request and taken up again by the next, under a new token. -/
def replacedSub : Sub :=
  new_sub "UCabcdefghijklmnopqrstuv".toList [0x55, 0x66] [0x77, 0x88] 1

def dropActions : List Action :=
  [.post_render (encode "\x7b\"channels\":[]\x7d".toList), .post_write 0 2, .post_try_lock 0,
    .reconcile_read true (fun _ _ => none), .reconcile_diff [firstSub], .reconcile_unsubscribe, .reconcile_remove,
    .reconcile_finish []]

def replaceActions : List Action :=
  [.post_render (encode "\x7b\"channels\":[\"UCabcdefghijklmnopqrstuv\"]\x7d".toList), .post_write 1 3,
    .post_try_lock 1, .reconcile_read true (fun _ _ => none), .reconcile_diff [],
    .reconcile_insert [0x55, 0x66] [0x77, 0x88] 1,
    .reconcile_answer (.ok 202) 1 0 [], .reconcile_finish [replacedSub]]

def staleActions : List Action :=
  startupActions ++ [.get_lookup firstSub.token verifyQuery] ++ dropActions ++ replaceActions

/-- A verification of the old token activates the subscription under the new one. -/
theorem stale_verification_activates :
    ∃ s s', machine.Run (step ⟨864000⟩) (.init 1 (some oneChannelFile) ∅) staleActions s ∧
      step ⟨864000⟩ s (.get_verify 0 [verified replacedSub 100 1]) = some s' ∧
      ¬ ActsOnToken ⟨864000⟩ s (.get_verify 0 [verified replacedSub 100 1]) ∧
      s.reg.by_token firstSub.token = none ∧ s.reg.by_token replacedSub.token = some replacedSub ∧
      s'.gets[0]? = some (.answered (some ['x'])) ∧
      s'.reg.by_token replacedSub.token = some (verified replacedSub 100 1) := by
  obtain ⟨s, hrun, hstale⟩ := machine.exists_run (step ⟨864000⟩)
    (show (staleActions.foldlM (step ⟨864000⟩) (.init 1 (some oneChannelFile) ∅)).any (fun s =>
      s.gets[0]? = some (.found firstSub verifyQuery) ∧ s.reg.by_token firstSub.token = none ∧
      s.reg.by_token replacedSub.token = some replacedSub ∧
      (step ⟨864000⟩ s (.get_verify 0 [verified replacedSub 100 1])).any (fun s' =>
        s'.gets[0]? = some (.answered (some ['x'])) ∧
          s'.reg.by_token replacedSub.token = some (verified replacedSub 100 1))) = true by decide +kernel)
  rw [decide_eq_true_eq] at hstale
  obtain ⟨hfound, hgone, hreplaced, hverify⟩ := hstale
  obtain ⟨s', hstep, hverified⟩ := (Option.any_eq_true _ _).mp hverify
  rw [decide_eq_true_eq] at hverified
  refine ⟨s, s', hrun, hstep, fun hacts => ?_, hgone, hreplaced, hverified⟩
  obtain ⟨⟨cur, hcur⟩, _⟩ := (hacts firstSub verifyQuery s' hfound (by decide +kernel) hstep).1 _ hverified.1
  rw [hgone] at hcur
  cases hcur

end yt_websub.server
