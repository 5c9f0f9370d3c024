import YtWebsub.Server.Verification

open rust rust.utf8 rust.text rust.num rust.map
open yt_websub.util yt_websub.subs yt_websub.renew yt_websub.callback

namespace yt_websub.server

variable {epoch : U64}

/-- Everything a step can do to one GET in progress. -/
inductive Reply (s : Server) (a : Action) (i : Nat) (g : Get) (s' : Server) : Prop where
  | kept (get : s'.gets[i]? = some g)
  | verify (order : List Sub) (sub : Sub) (query : Text) (action : a = .get_verify i order)
      (found : g = .found sub query)
      (get : s'.gets[i]? = some (.answered (handle_verify sub query).2))
  | check (token query : Text) (now : U64) (action : a = .get_unsub_topic i now) (unknown : g = .unknown token query)
      (time : now ≤ s.clock)
      (get : s'.gets[i]? = some (.checked token now (finish_unsubscribe (s.reg.unsub_topic token now) query)))
  | confirm (token : Text) (now : U64) (challenge : Text) (action : a = .get_forget i)
      (confirming : g = .confirming token now challenge) (get : s'.gets[i]? = some (.answered (some challenge)))
  | restart (cache : HashMap Text Text) (action : a = .restart cache) (gets : s'.gets = [])

theorem Exchange.reply {cfg : Config} {s s' : Server} {a : Action} (h : Exchange cfg s a s') {i : Nat} {g : Get}
    (hget : s.gets[i]? = some g) : Reply s a i g s' := by
  have hlt : i < s.gets.length := (List.getElem?_eq_some_iff.mp hget).1
  have hset : ∀ {j : Nat} {g' : Get}, s'.gets = s.gets.set j g' → j ≠ i → s'.gets[i]? = some g := by
    intro j g' hgets hne
    rw [hgets, List.getElem?_set_ne hne, hget]
  cases h with
  | other gets => exact .kept (gets ▸ hget)
  | found token query sub action live gets =>
    refine .kept ?_
    rw [gets, List.getElem?_append_left hlt, hget]
  | unknown token query action gone gets =>
    refine .kept ?_
    rw [gets, List.getElem?_append_left hlt, hget]
  | verify j order sub query action found gets =>
    by_cases hj : j = i
    · subst hj
      obtain rfl := Option.some.inj (hget.symm.trans found)
      exact .verify order sub query action rfl (by rw [gets, List.getElem?_set_self hlt])
    · exact .kept (hset gets hj)
  | check j token query now action unknown time gets =>
    by_cases hj : j = i
    · subst hj
      obtain rfl := Option.some.inj (hget.symm.trans unknown)
      exact .check token query now action rfl time (by rw [gets, List.getElem?_set_self hlt])
    · exact .kept (hset gets hj)
  | confirm j token now challenge action confirming gets =>
    by_cases hj : j = i
    · subst hj
      obtain rfl := Option.some.inj (hget.symm.trans confirming)
      exact .confirm token now challenge action rfl (by rw [gets, List.getElem?_set_self hlt])
    · exact .kept (hset gets hj)
  | restart cache action gets => exact .restart cache action gets

/-- The token whose unsubscribe a GET in progress may confirm. -/
def Get.unsubscribing : Get → Option Text
  | .found sub query => if hub_mode query = "unsubscribe".toList then some sub.token else none
  | .unknown token query => if hub_mode query = "unsubscribe".toList then some token else none
  | .confirming token _ _ => some token
  | .answered _ => none

/-- The challenge of an unsubscribe verification is echoed only for a token that a
reconcile has selected for removal. -/
def ConfirmsWanted (cfg : Config) (sh : Server × History) (a : Action) : Prop :=
  (∀ token query sub, a = .get_lookup token query → sh.1.reg.by_token token = some sub → sub.token = token) ∧
    ∀ (i : Nat) (g : Get) token (s' : Server) challenge, sh.1.gets[i]? = some g → g.unsubscribing = some token →
      step cfg sh.1 a = some s' →
      s'.gets[i]? = some (.answered (some challenge)) → token ∈ sh.2.selected

/-- A subscription that is looked up live and for which an acceptable unsubscribe
verification is handled was selected for removal. -/
def Requested (sh : Server × History) : Action → Prop
  | .get_verify i _ => ∀ sub query, sh.1.gets[i]? = some (.found sub query) →
      hub_mode query = "unsubscribe".toList → verify_matches sub query = true → sub.token ∈ sh.2.selected
  | _ => True

theorem confirms_wanted_iff {cfg : Config} {s s' : Server} {h : History} {a : Action} (hs : Verifying cfg epoch s h)
    (hstep : step cfg s a = some s') : ConfirmsWanted cfg (s, h) a ↔ Requested (s, h) a := by
  constructor
  · intro hwanted
    cases a with
    | get_verify i order =>
      intro sub query hfound hmode hmatches
      have hget := (verify_spec hstep hfound).1
      rw [handle_verify_unsubscribe hmatches hmode] at hget
      exact hwanted.2 i _ sub.token s' _ hfound (if_pos hmode) hstep hget
    | _ => trivial
  · intro hrequested
    refine ⟨fun token query sub _ hsub => (hs.consistent.memory.by_token_eq_some.mp hsub).2, ?_⟩
    intro i g token s'' challenge hget htoken hstep' hecho
    obtain rfl := Option.some.inj (hstep.symm.trans hstep')
    cases (step_exchange hstep).reply hget with
    | kept get =>
      rw [get, Option.some.injEq] at hecho
      subst hecho
      cases htoken
    | verify order sub query action found get =>
      subst action found
      rw [Get.unsubscribing] at htoken
      split at htoken
      · rename_i hmode
        cases htoken
        refine hrequested sub query hget hmode ?_
        rw [get, Option.some.injEq, Get.answered.injEq] at hecho
        cases hmatches : verify_matches sub query with
        | true => rfl
        | false =>
          rw [handle_verify_of_not_matches hmatches] at hecho
          cases hecho
      · cases htoken
    | check token' query now action unknown time get =>
      rw [get, Option.some.injEq] at hecho
      cases hfinish : finish_unsubscribe (s.reg.unsub_topic token' now) query with
      | some _ => rw [hfinish] at hecho; cases hecho
      | none => rw [hfinish] at hecho; cases hecho
    | confirm token' now challenge' action confirming get =>
      subst confirming
      cases htoken
      exact hs.selected _ _ _ (List.mem_of_getElem? hget)
    | restart cache action gets =>
      rw [gets] at hecho
      cases hecho

/-- Unsubscribes are confirmed only where wanted in exactly those runs in which no
acceptable unsubscribe verification is handled for a live subscription that no reconcile
has selected. -/
theorem unsubscribe_confirmed_iff_wanted {cfg : Config} {clock : U64} {file : Option ChannelsFile}
    {cache : HashMap Text Text} {actions : List Action} {sh : Server × History}
    (hrun : machine.Run (recorded cfg) (.init clock file cache, .empty) actions sh) :
    machine.Along (recorded cfg) (ConfirmsWanted cfg) (.init clock file cache, .empty) actions ↔
      machine.Along (recorded cfg) Requested (.init clock file cache, .empty) actions :=
  hrun.along_congr (fun sh => Verifying cfg clock sh.1 sh.2) (fun _ _ _ => recorded_verifying)
    (fun _ _ _ hs hstep => confirms_wanted_iff hs (machine.traced_eq_some.mp hstep).1) (.init cfg clock file cache)

instance (sh : Server × History) : (a : Action) → Decidable (Requested sh a)
  | .get_verify i _ =>
    inferInstanceAs (Decidable (∀ sub query, sh.1.gets[i]? = some (.found sub query) →
      hub_mode query = "unsubscribe".toList → verify_matches sub query = true → sub.token ∈ sh.2.selected))
  | .advance _ | .edit _ | .post_render _ | .post_write _ _ | .post_fail _ | .post_try_lock _ | .renewal_lock
  | .reconcile_read _ _ | .reconcile_diff _ | .reconcile_insert _ _ _ | .reconcile_answer _ _ _ _
  | .reconcile_unsubscribe | .reconcile_remove | .reconcile_finish _ | .renewal_sample | .renewal_wake
  | .renewal_expire _ | .renewal_select _ | .renewal_send | .renewal_answer _ _ _ _ | .renewal_sleep
  | .get_lookup _ _ | .get_unsub_topic _ _ | .get_forget _ | .restart _ => isTrue trivial

def unsubscribeQuery : Text :=
  "hub.mode=unsubscribe&hub.challenge=x&hub.topic=".toList ++ firstSub.topic

/-- The channel is dropped, and the hub verifies it. -/
def confirmedActions : List Action :=
  startupActions ++ dropActions ++
    [.get_lookup firstSub.token unsubscribeQuery, .get_unsub_topic 0 1, .get_forget 0]

theorem unsubscribe_confirmed_iff_wanted_dropped :
    machine.Along (recorded ⟨864000⟩) (ConfirmsWanted ⟨864000⟩) (.init 1 (some oneChannelFile) ∅, .empty)
      confirmedActions := by
  obtain ⟨sh, hrun, _⟩ := machine.exists_run (recorded ⟨864000⟩)
    (show (confirmedActions.foldlM (recorded ⟨864000⟩)
      (.init 1 (some oneChannelFile) ∅, .empty)).any (fun _ => true) = true
      by decide +kernel)
  refine (unsubscribe_confirmed_iff_wanted hrun).mpr ?_
  decide +kernel

def unwantedActions : List Action :=
  verifiedActions ++ [.get_lookup firstSub.token unsubscribeQuery]

/-- Nobody wants the subscription removed, yet its unsubscribe is confirmed, and it stays
active. -/
theorem unwanted_unsubscribe_confirmed :
    ∃ s h s', machine.Run (recorded ⟨864000⟩) (.init 1 (some oneChannelFile) ∅, .empty)
        unwantedActions (s, h) ∧
      step ⟨864000⟩ s (.get_verify 1 []) = some s' ∧ ¬ ConfirmsWanted ⟨864000⟩ (s, h) (.get_verify 1 []) ∧
      h.selected = [] ∧ s'.gets[1]? = some (.answered (some ['x'])) ∧
      s'.reg.by_token firstSub.token = some (verified firstSub 100 1) := by
  obtain ⟨⟨s, h⟩, hrun, hlive⟩ := machine.exists_run (recorded ⟨864000⟩)
    (show (unwantedActions.foldlM (recorded ⟨864000⟩) (.init 1 (some oneChannelFile) ∅, .empty)).any (fun sh =>
        sh.1.gets[1]? = some (.found (verified firstSub 100 1) unsubscribeQuery) ∧ sh.2.selected = [] ∧
        (step ⟨864000⟩ sh.1 (.get_verify 1 [])).any (fun s' => s'.gets[1]? = some (.answered (some ['x'])) ∧
          s'.reg.by_token firstSub.token = some (verified firstSub 100 1))) = true by decide +kernel)
  rw [decide_eq_true_eq] at hlive
  obtain ⟨hfound, hselected, hverify⟩ := hlive
  obtain ⟨s', hstep, hverified⟩ := (Option.any_eq_true _ _).mp hverify
  rw [decide_eq_true_eq] at hverified
  refine ⟨s, h, s', hrun, hstep, fun hwanted => ?_, hselected, hverified⟩
  have hmem := hwanted.2 1 _ firstSub.token s' ['x'] hfound (by decide +kernel) hstep hverified.1
  rw [hselected] at hmem
  cases hmem

def hub_challenge (query : Text) : Text :=
  (query_get query "hub.challenge".toList).getD []

/-- The GET has echoed the challenge, or will do so in its next step. -/
inductive Get.Answers (challenge : Text) : Get → Prop where
  | answered : Answers challenge (.answered (some challenge))
  | found (sub : Sub) (query : Text) (accepted : (handle_verify sub query).2 = some challenge) :
    Answers challenge (.found sub query)
  | confirming (token : Text) (now : U64) : Answers challenge (.confirming token now challenge)

/-- Between restarts, nothing keeps a GET from the answer it is about to give. -/
theorem Reply.answers {s s' : Server} {a : Action} {i : Nat} {g : Get} (h : Reply s a i g s')
    (hrestart : ∀ cache, a ≠ .restart cache) {challenge : Text} (hanswers : g.Answers challenge) :
    ∃ g', s'.gets[i]? = some g' ∧ g'.Answers challenge := by
  cases h with
  | kept get => exact ⟨g, get, hanswers⟩
  | verify order sub query action found get =>
    subst found
    cases hanswers with
    | found _ _ accepted =>
      rw [accepted] at get
      exact ⟨_, get, .answered⟩
  | check token query now action unknown time get =>
    subst unknown
    cases hanswers
  | confirm token now challenge' action confirming get =>
    subst confirming
    cases hanswers
    exact ⟨_, get, .answered⟩
  | restart cache action gets => exact absurd action (hrestart cache)

/-- The challenge has been echoed, or the server can take a step that echoes it and no step
but a restart prevents that. -/
def Echoes (cfg : Config) (s : Server) (i : Nat) (challenge : Text) : Prop :=
  s.gets[i]? = some (.answered (some challenge)) ∨
    (∃ a s', step cfg s a = some s' ∧ s'.gets[i]? = some (.answered (some challenge))) ∧
      ∀ a s', step cfg s a = some s' → (∀ cache, a ≠ .restart cache) →
        s'.gets[i]? = s.gets[i]? ∨ s'.gets[i]? = some (.answered (some challenge))

theorem verify_enabled (cfg : Config) {s : Server} {i : Nat} {sub : Sub} {query : Text}
    (hfound : s.gets[i]? = some (.found sub query)) : ∃ order s', step cfg s (.get_verify i order) = some s' := by
  cases htarget : (handle_verify sub query).1.bind fun cid => s.reg.subs.lookup cid with
  | none => exact ⟨[], _, by simp only [step, hfound, htarget]; rfl⟩
  | some cur =>
    refine ⟨values (s.reg.update (verified cur (granted_lease cfg.lease_seconds query) s.clock)).subs, ?_⟩
    rw [← Option.isSome_iff_exists]
    simp only [step, hfound, htarget, Server.save, Registry.save, List.Perm.refl, if_true, Option.map_some]
    rfl

theorem Get.Answers.echoes {cfg : Config} {s : Server} {i : Nat} {g : Get} (hget : s.gets[i]? = some g)
    {challenge : Text}
    (h : g.Answers challenge) : Echoes cfg s i challenge := by
  have hlt : i < s.gets.length := (List.getElem?_eq_some_iff.mp hget).1
  cases h with
  | answered => exact Or.inl hget
  | found sub query accepted =>
    refine Or.inr ⟨?_, fun a s' hstep hrestart => ?_⟩
    · obtain ⟨order, s', hstep⟩ := verify_enabled cfg hget
      exact ⟨_, s', hstep, accepted ▸ (verify_spec hstep hget).1⟩
    · cases (step_exchange hstep).reply hget with
      | kept get => exact Or.inl (get.trans hget.symm)
      | verify order sub' query' action found get =>
        cases found
        exact Or.inr (accepted ▸ get)
      | check token query' now action unknown time get => cases unknown
      | confirm token now challenge' action confirming get => cases confirming
      | restart cache action gets => exact absurd action (hrestart cache)
  | confirming token now =>
    refine Or.inr ⟨⟨.get_forget i, { s with
      reg := s.reg.forget_unsub token now, gets := s.gets.set i (.answered (some challenge)) }, ?_, ?_⟩,
      fun a s' hstep hrestart => ?_⟩
    · simp only [step, hget]
    · simp [hlt]
    cases (step_exchange hstep).reply hget with
    | kept get => exact Or.inl (get.trans hget.symm)
    | verify order sub query action found get => cases found
    | check token' query now' action unknown time get => cases unknown
    | confirm token' now' challenge' action confirming get =>
      cases confirming
      exact Or.inr get
    | restart cache action gets => exact absurd action (hrestart cache)

/-- The time in which the hub may verify the unsubscribe of a subscription: until that has
been confirmed, or `UNSUB_GRACE` seconds have passed since the removal. -/
def InGrace (sh : Server × History) (sub : Sub) : Prop :=
  sub.token ∉ sh.2.confirmed ∧ ∀ r, sh.2.removed sub.token = some r → sh.1.clock.val < r.val + UNSUB_GRACE

theorem verify_matches_congr {sub sub' : Sub} (htoken : sub.token = sub'.token) (htopic : sub.topic = sub'.topic)
    (query : Text) : verify_matches sub query = verify_matches sub' query := by
  simp only [verify_matches, htoken, htopic]

/-- A live token is found, and the subscription found accepts what its copies accept. -/
theorem Verifying.lookup {cfg : Config} {s : Server} {h : History} (hs : Verifying cfg epoch s h) {sub : Sub}
    (hholds : Holds s.reg sub) :
    ∃ cur, s.reg.by_token sub.token = some cur ∧ ∀ query, verify_matches cur query = verify_matches sub query := by
  obtain ⟨cur, hcur, htoken, htopic⟩ := hholds
  refine ⟨cur, hs.consistent.memory.by_token_eq_some.mpr ⟨?_, htoken⟩, verify_matches_congr htoken htopic⟩
  rwa [hs.consistent.memory.keyed _ cur hcur]

theorem unsubscribed_subset (h : History) (s : Server) {a : Action} (hrestart : ∀ cache, a ≠ .restart cache) :
    h.unsubscribed ⊆ (h.record s a).unsubscribed := by
  cases a with
  | restart cache => exact absurd rfl (hrestart cache)
  | reconcile_unsubscribe =>
    simp only [History.record]
    split
    · exact List.subset_cons_self _ _
    · exact List.Subset.refl _
  | _ =>
    simp only [History.record]
    repeat' split
    all_goals exact List.Subset.refl _

/-- The grace period does not come back. -/
theorem InGrace.before {cfg : Config} {s s' : Server} {h : History} {a : Action} (hs : Tracked cfg epoch s h)
    (hstep : step cfg s a = some s') (hrestart : ∀ cache, a ≠ .restart cache) {sub : Sub}
    (hgrace : InGrace (s', h.record s a) sub) : InGrace (s, h) sub :=
  ⟨fun hmem => hgrace.1 (confirmed_subset h s hrestart hmem), fun _ hr =>
    (Fin.le_def.mp (step_clock hstep)).trans_lt (hgrace.2 _ (hs.removed_step hstep hrestart hr))⟩

/-- Within the grace period the topic of a removed subscription is on record. -/
theorem InGrace.unsub_topic {cfg : Config} {s : Server} {h : History} (hs : Tracked cfg epoch s h) {sub : Sub}
    (hsub : sub ∈ h.unsubscribed) (hremoved : (h.removed sub.token).isSome) (hgrace : InGrace (s, h) sub) {now : U64}
    (hnow : now ≤ s.clock) : s.reg.unsub_topic sub.token now = some sub.topic := by
  obtain ⟨cur, hcur, htoken, _⟩ | ⟨r, hr, hconfirmed | hover | ⟨deadline, htombstone, hdeadline⟩⟩ :=
    hs.unsubscribed sub hsub
  · rw [← htoken, hs.live _ cur hcur] at hremoved
    cases hremoved
  · exact absurd hconfirmed hgrace.1
  · exact absurd (hgrace.2 r hr) (not_lt.mpr hover)
  · have hlt : now < deadline := by
      have hwithin := hgrace.2 r hr
      rw [Fin.le_def] at hnow
      rw [Fin.lt_def, hdeadline]
      exact hnow.trans_lt hwithin
    simp only [Registry.unsub_topic, htombstone, Option.filter_some, hlt, decide_true, if_true, Option.map_some]

theorem finish_unsubscribe_challenge {expected : Option Text} {query challenge : Text}
    (h : finish_unsubscribe expected query = some challenge) : challenge = hub_challenge query := by
  simp only [finish_unsubscribe] at h
  split at h
  · split at h
    · exact (Option.some.inj h).symm
    · cases h
  · cases h

/-- The check accepts what the subscription accepted while it was live. -/
theorem finish_unsubscribe_matches {sub : Sub} {query : Text} (hmatches : verify_matches sub query = true)
    (hmode : hub_mode query = "unsubscribe".toList) :
    finish_unsubscribe (some sub.topic) query = some (hub_challenge query) := by
  simp only [verify_matches, Bool.and_eq_true, decide_eq_true_eq] at hmatches
  rw [hub_mode] at hmode
  simp only [finish_unsubscribe, hmode, hmatches.1.1, ne_eq, hmatches.1.2, not_false_eq_true, and_self, if_true,
    hub_challenge]

/-- Where an unsubscribe verification of a sub stands that the hub began in time. -/
inductive Begun (sh : Server × History) (sub : Sub) (query : Text) (i : Nat) : Prop where
  | answering (g : Get) (get : sh.1.gets[i]? = some g) (answers : g.Answers (hub_challenge query))
  | unchecked (get : sh.1.gets[i]? = some (.unknown sub.token query)) (removed : (sh.2.removed sub.token).isSome)
  | late (get : sh.1.gets[i]? = some (.answered none)) (closed : ¬ InGrace sh sub)

theorem Begun.step {cfg : Config} {s s' : Server} {h : History} {a : Action} {sub : Sub} {query : Text} {i : Nat}
    (hbegun : Begun (s, h) sub query i) (hs : Tracked cfg epoch s h) (hsub : sub ∈ h.unsubscribed)
    (hmatches : verify_matches sub query = true) (hmode : hub_mode query = "unsubscribe".toList)
    (hstep : step cfg s a = some s') (hrestart : ∀ cache, a ≠ .restart cache) :
    Begun (s', h.record s a) sub query i := by
  cases hbegun with
  | answering g get answers =>
    obtain ⟨g', hget', hanswers'⟩ := ((step_exchange hstep).reply get).answers hrestart answers
    exact .answering g' hget' hanswers'
  | unchecked get removed =>
    cases (step_exchange hstep).reply get with
    | kept get' =>
      obtain ⟨r, hr⟩ := Option.isSome_iff_exists.mp removed
      exact .unchecked get' (hs.removed_step hstep hrestart hr ▸ rfl)
    | verify order sub' query' action found get' => cases found
    | check token query' now action unknown time get' =>
      cases unknown
      cases hfinish : finish_unsubscribe (s.reg.unsub_topic sub.token now) query with
      | some challenge =>
        rw [hfinish, finish_unsubscribe_challenge hfinish] at get'
        exact .answering _ get' (.confirming sub.token now)
      | none =>
        rw [hfinish] at get'
        refine .late get' fun hgrace => ?_
        rw [(hgrace.before hs hstep hrestart).unsub_topic hs hsub removed time,
          finish_unsubscribe_matches hmatches hmode] at hfinish
        cases hfinish
    | confirm token now challenge action confirming get' => cases confirming
    | restart cache action gets => exact absurd action (hrestart cache)
  | late get closed =>
    cases (step_exchange hstep).reply get with
    | kept get' => exact .late get' fun hgrace => closed (hgrace.before hs hstep hrestart)
    | verify order sub' query' action found get' => cases found
    | check token query' now action unknown time get' => cases unknown
    | confirm token now challenge action confirming get' => cases confirming
    | restart cache action gets => exact absurd action (hrestart cache)

/-- Conversely, only a GET that is about to answer can echo a challenge. -/
theorem Echoes.answers {cfg : Config} {s : Server} {i : Nat} {challenge : Text} (h : Echoes cfg s i challenge) :
    ∃ g, s.gets[i]? = some g ∧ g.Answers challenge := by
  obtain hecho | ⟨⟨a, s', hstep, hget'⟩, _⟩ := h
  · exact ⟨_, hecho, .answered⟩
  have hexchange := step_exchange hstep
  cases hget : s.gets[i]? with
  | some g =>
    refine ⟨g, rfl, ?_⟩
    cases hexchange.reply hget with
    | kept get =>
      obtain rfl := Option.some.inj (get.symm.trans hget')
      exact .answered
    | verify order sub query action found get =>
      rw [get, Option.some.injEq, Get.answered.injEq] at hget'
      exact found ▸ .found sub query hget'
    | check token query now action unknown time get =>
      rw [get] at hget'
      cases hfinish : finish_unsubscribe (s.reg.unsub_topic token now) query <;> simp [hfinish, Get.checked] at hget'
    | confirm token now challenge' action confirming get =>
      rw [get, Option.some.injEq, Get.answered.injEq, Option.some.injEq] at hget'
      exact confirming ▸ hget' ▸ .confirming token now
    | restart cache action gets => simp [gets] at hget'
  | none =>
    have hle : s.gets.length ≤ i := List.getElem?_eq_none_iff.mp hget
    cases hexchange with
    | other gets => simp [gets, hget] at hget'
    | found token query sub action live gets =>
      rw [gets, List.getElem?_append_right hle, List.getElem?_singleton] at hget'
      split at hget' <;> cases hget'
    | unknown token query action gone gets =>
      rw [gets, List.getElem?_append_right hle, List.getElem?_singleton] at hget'
      split at hget' <;> cases hget'
    | verify j order sub query action found gets => simp [gets, hle] at hget'
    | check j token query now action unknown time gets => simp [gets, hle] at hget'
    | confirm j token now challenge' action confirming gets => simp [gets, hle] at hget'
    | restart cache action gets => simp [gets] at hget'

/-- No restart cuts the exchange short. -/
def Uninterrupted (actions : List Action) : Prop :=
  ∀ cache, .restart cache ∉ actions

theorem Uninterrupted.along {S : Type} {step : machine.Step S Action} {actions : List Action}
    (h : Uninterrupted actions) (s : S) :
    machine.Along step (fun _ a => ∀ cache, a ≠ .restart cache) s actions := by
  refine .of_forall (fun a ha _ cache heq => ?_) s
  subst heq
  exact h cache ha

theorem Get.Answers.of_run {cfg : Config} {sh sh' : Server × History} {later : List Action}
    (hlater : Uninterrupted later) (hrun : machine.Run (recorded cfg) sh later sh') {i : Nat} {g : Get}
    (hget : sh.1.gets[i]? = some g) {challenge : Text} (h : g.Answers challenge) : Echoes cfg sh'.1 i challenge := by
  obtain ⟨g', hget', hanswers⟩ := hrun.invariant_along (fun sh => ∃ g, sh.1.gets[i]? = some g ∧ g.Answers challenge)
    (fun _ _ _ ⟨_, hget, hanswers⟩ hrestart hstep =>
      ((step_exchange (machine.traced_eq_some.mp hstep).1).reply hget).answers hrestart hanswers)
    (hlater.along sh) ⟨g, hget, h⟩
  exact hanswers.echoes hget'

theorem Begun.of_run {cfg : Config} {sh sh' : Server × History} {later : List Action} {sub : Sub} {query : Text}
    {i : Nat}
    (hbegun : Begun sh sub query i) (hs : Verifying cfg epoch sh.1 sh.2) (hsub : sub ∈ sh.2.unsubscribed)
    (hmatches : verify_matches sub query = true) (hmode : hub_mode query = "unsubscribe".toList)
    (hlater : Uninterrupted later) (hrun : machine.Run (recorded cfg) sh later sh') :
    Verifying cfg epoch sh'.1 sh'.2 ∧ sub ∈ sh'.2.unsubscribed ∧ Begun sh' sub query i := by
  refine hrun.invariant_along
    (fun sh => Verifying cfg epoch sh.1 sh.2 ∧ sub ∈ sh.2.unsubscribed ∧ Begun sh sub query i) ?_ (hlater.along sh)
    ⟨hs, hsub, hbegun⟩
  rintro ⟨s, h⟩ a ⟨s', h'⟩ ⟨hs, hsub, hbegun⟩ hrestart hstep
  obtain ⟨hserver, rfl⟩ := machine.traced_eq_some.mp hstep
  exact ⟨step_verifying hs hserver, unsubscribed_subset h s hrestart hsub,
    hbegun.step hs.toTracked hsub hmatches hmode hserver hrestart⟩

/-- A live token is found, so that the GET goes on to answer for the subscription. -/
theorem Verifying.lookup_live {cfg : Config} {sh sh' : Server × History} (hs : Verifying cfg epoch sh.1 sh.2)
    {sub : Sub}
    (hholds : Holds sh.1.reg sub) {query : Text} (hstep : recorded cfg sh (.get_lookup sub.token query) = some sh') :
    ∃ cur, sh'.1.gets[sh.1.gets.length]? = some (.found cur query) ∧
      verify_matches cur query = verify_matches sub query := by
  obtain ⟨cur, hcur, hmatches⟩ := hs.lookup hholds
  have hserver := (machine.traced_eq_some.mp hstep).1
  simp only [step, hcur, Option.some.injEq] at hserver
  exact ⟨cur, by simp [← hserver], hmatches query⟩

theorem lookup_gone {cfg : Config} {sh sh' : Server × History} {token query : Text}
    (hgone : sh.1.reg.by_token token = none) (hstep : recorded cfg sh (.get_lookup token query) = some sh') :
    sh'.1.gets[sh.1.gets.length]? = some (.unknown token query) := by
  have hserver := (machine.traced_eq_some.mp hstep).1
  simp only [step, hgone, Option.some.injEq] at hserver
  simp [← hserver]

/-- An unsubscribe verification that is looked up in the grace period has begun. -/
theorem Verifying.begun {cfg : Config} {sh sh' : Server × History} (hs : Verifying cfg epoch sh.1 sh.2) {sub : Sub}
    (hsub : sub ∈ sh.2.unsubscribed) (hgrace : InGrace sh sub) {query : Text}
    (hmatches : verify_matches sub query = true)
    (hmode : hub_mode query = "unsubscribe".toList)
    (hstep : recorded cfg sh (.get_lookup sub.token query) = some sh') :
    Begun sh' sub query sh.1.gets.length := by
  obtain hholds | ⟨r, hr, hanswer⟩ := hs.unsubscribed sub hsub
  · obtain ⟨cur, hget, hcur⟩ := hs.lookup_live hholds hstep
    refine .answering _ hget (.found cur query ?_)
    rw [handle_verify_unsubscribe (hcur.trans hmatches) hmode, hub_challenge]
  · have hgone : sh.1.reg.by_token sub.token = none := by
      refine hs.consistent.memory.by_token_removed (AList.lookup_isSome.mp ?_)
      obtain hconfirmed | hclosed | ⟨deadline, htombstone, _⟩ := hanswer
      · exact absurd hconfirmed hgrace.1
      · exact absurd (hgrace.2 r hr) (not_lt.mpr hclosed)
      · exact htombstone ▸ rfl
    refine .unchecked (lookup_gone hgone hstep) ?_
    rw [← (machine.traced_eq_some.mp hstep).2]
    exact hr ▸ rfl

/-- A subscribe verification of a token that is not live is refused, and stays refused. -/
theorem refused_of_run {cfg : Config} {sh sh' : Server × History} {later : List Action} (hlater : Uninterrupted later)
    (hrun : machine.Run (recorded cfg) sh later sh') {i : Nat} {token query : Text}
    (hmode : hub_mode query = "subscribe".toList) (hget : sh.1.gets[i]? = some (.unknown token query)) :
    sh'.1.gets[i]? = some (.unknown token query) ∨ sh'.1.gets[i]? = some (.answered none) := by
  refine hrun.invariant_along
    (fun sh => sh.1.gets[i]? = some (.unknown token query) ∨ sh.1.gets[i]? = some (.answered none)) ?_
    (hlater.along sh) (Or.inl hget)
  rintro ⟨s, h⟩ a ⟨s', h'⟩ hrefused hrestart hstep
  have hexchange := step_exchange (machine.traced_eq_some.mp hstep).1
  have hother : hub_mode query ≠ "unsubscribe".toList := hmode ▸ by decide
  obtain hget | hget := hrefused
  · cases hexchange.reply hget with
    | kept get => exact Or.inl get
    | verify order sub query' action found get => cases found
    | check token' query' now action unknown time get =>
      cases unknown
      rw [finish_unsubscribe_of_mode hother] at get
      exact Or.inr get
    | confirm token' now challenge action confirming get => cases confirming
    | restart cache action gets => exact absurd action (hrestart cache)
  · cases hexchange.reply hget with
    | kept get => exact Or.inr get
    | verify order sub query' action found get => cases found
    | check token' query' now action unknown time get => cases unknown
    | confirm token' now challenge action confirming get => cases confirming
    | restart cache action gets => exact absurd action (hrestart cache)

/-- Every verification that the server provoked is answerable: a subscribe verification
whenever the lookup falls between the request and the removal, an unsubscribe verification
whenever it is handled within the grace period; what is about to be answered is answered
whatever else happens; and a subscribe verification of any other token is refused. -/
theorem provoked_verification_answerable {cfg : Config} {clock : U64} {file : Option ChannelsFile}
    {cache : HashMap Text Text} {actions : List Action} {sh : Server × History}
    (hrun : machine.Run (recorded cfg) (.init clock file cache, .empty) actions sh) :
    (∀ sub ∈ sh.2.subscribed, sh.2.removed sub.token = none → ∀ query, verify_matches sub query = true →
        hub_mode query = "subscribe".toList → ∀ later sh', Uninterrupted later →
        machine.Run (recorded cfg) sh (.get_lookup sub.token query :: later) sh' →
        Echoes cfg sh'.1 sh.1.gets.length (hub_challenge query)) ∧
      (∀ sub ∈ sh.2.unsubscribed, InGrace sh sub → ∀ query, verify_matches sub query = true →
        hub_mode query = "unsubscribe".toList → ∀ later sh', Uninterrupted later →
        machine.Run (recorded cfg) sh (.get_lookup sub.token query :: later) sh' → InGrace sh' sub →
        Echoes cfg sh'.1 sh.1.gets.length (hub_challenge query) ∨
          (∃ now s', step cfg sh'.1 (.get_unsub_topic sh.1.gets.length now) = some s') ∧
            ∀ now s', step cfg sh'.1 (.get_unsub_topic sh.1.gets.length now) = some s' →
              Echoes cfg s' sh.1.gets.length (hub_challenge query)) ∧
      (∀ i challenge, Echoes cfg sh.1 i challenge → ∀ later sh', Uninterrupted later →
        machine.Run (recorded cfg) sh later sh' → Echoes cfg sh'.1 i challenge) ∧
      ∀ token query, sh.1.reg.by_token token = none → hub_mode query = "subscribe".toList → ∀ later sh',
        Uninterrupted later → machine.Run (recorded cfg) sh (.get_lookup token query :: later) sh' →
        ∀ challenge, sh'.1.gets[sh.1.gets.length]? ≠ some (.answered (some challenge)) := by
  have hs : Verifying cfg clock sh.1 sh.2 := hrun.invariant (fun sh => Verifying cfg clock sh.1 sh.2)
    (fun _ _ _ => recorded_verifying) (.init cfg clock file cache)
  refine ⟨?_, ?_, ?_, ?_⟩
  · intro sub hsub hremoved query hmatches hmode later sh' hlater hrun'
    obtain ⟨mid, hstep, hrest⟩ := machine.run_cons.mp hrun'
    have hholds := (hs.subscribed sub hsub).resolve_right (by simp [hremoved])
    obtain ⟨cur, hget, hcur⟩ := hs.lookup_live hholds hstep
    refine Get.Answers.of_run hlater hrest hget (.found cur query ?_)
    rw [handle_verify_subscribe (hcur.trans hmatches) hmode, hub_challenge]
  · intro sub hsub hgrace query hmatches hmode later sh' hlater hrun' hgrace'
    obtain ⟨mid, hstep, hrest⟩ := machine.run_cons.mp hrun'
    have hmid := recorded_verifying hs hstep
    have hsub' : sub ∈ mid.2.unsubscribed := by
      rw [← (machine.traced_eq_some.mp hstep).2]
      exact hsub
    obtain ⟨hs', hsub', hbegun⟩ :=
      (hs.begun hsub hgrace hmatches hmode hstep).of_run hmid hsub' hmatches hmode hlater hrest
    cases hbegun with
    | answering g get answers => exact Or.inl (answers.echoes get)
    | unchecked get removed =>
      have hcheck : ∀ now, now ≤ sh'.1.clock → finish_unsubscribe (sh'.1.reg.unsub_topic sub.token now) query =
          some (hub_challenge query) := by
        intro now hnow
        rw [hgrace'.unsub_topic hs'.toTracked hsub' removed hnow, finish_unsubscribe_matches hmatches hmode]
      refine Or.inr ⟨⟨sh'.1.clock, _, by simp only [step, get, le_refl, if_true, hcheck]; rfl⟩, fun now s' hstep' => ?_⟩
      obtain ⟨_, hget'⟩ := check_spec hstep' get
      have hnow : now ≤ sh'.1.clock := by
        simp only [step, get] at hstep'
        split at hstep'
        · assumption
        · cases hstep'
      rw [hcheck now hnow] at hget'
      exact Get.Answers.echoes hget' (.confirming _ _)
    | late get closed => exact absurd hgrace' closed
  · intro i challenge hechoes later sh' hlater hrun'
    obtain ⟨g, hget, hanswers⟩ := hechoes.answers
    exact hanswers.of_run hlater hrun' hget
  · intro token query hgone hmode later sh' hlater hrun' challenge hecho
    obtain ⟨mid, hstep, hrest⟩ := machine.run_cons.mp hrun'
    obtain hget | hget := refused_of_run hlater hrest hmode (lookup_gone hgone hstep)
    · rw [hget] at hecho
      cases hecho
    · rw [hget] at hecho
      cases hecho

theorem provoked_verification_answerable_dropped :
    ∃ sh, machine.Run (recorded ⟨864000⟩) (.init 1 (some oneChannelFile) ∅, .empty) (startupActions ++ dropActions) sh ∧
      firstSub ∈ sh.2.unsubscribed ∧ sh.2.removed firstSub.token = some 1 ∧
      ∀ later sh', Uninterrupted later →
        machine.Run (recorded ⟨864000⟩) sh (.get_lookup firstSub.token unsubscribeQuery :: later) sh' →
        InGrace sh' firstSub → Echoes ⟨864000⟩ sh'.1 sh.1.gets.length ['x'] ∨
          (∃ now s', step ⟨864000⟩ sh'.1 (.get_unsub_topic sh.1.gets.length now) = some s') ∧
            ∀ now s', step ⟨864000⟩ sh'.1 (.get_unsub_topic sh.1.gets.length now) = some s' →
              Echoes ⟨864000⟩ s' sh.1.gets.length ['x'] := by
  obtain ⟨sh, hrun, hdropped⟩ := machine.exists_run (recorded ⟨864000⟩)
    (show ((startupActions ++ dropActions).foldlM (recorded ⟨864000⟩) (.init 1 (some oneChannelFile) ∅, .empty)).any
      (fun sh => firstSub ∈ sh.2.unsubscribed ∧ sh.2.removed firstSub.token = some 1 ∧
        firstSub.token ∉ sh.2.confirmed ∧ sh.1.clock = 1) = true by decide +kernel)
  rw [decide_eq_true_eq] at hdropped
  obtain ⟨hsub, hremoved, hconfirmed, hclock⟩ := hdropped
  refine ⟨sh, hrun, hsub, hremoved, (provoked_verification_answerable hrun).2.1 firstSub hsub ⟨hconfirmed, ?_⟩
    unsubscribeQuery (by decide +kernel) (by decide +kernel)⟩
  intro r hr
  rw [hremoved, Option.some.injEq] at hr
  rw [← hr, hclock]
  decide

end yt_websub.server
