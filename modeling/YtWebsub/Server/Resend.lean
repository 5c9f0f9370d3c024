import YtWebsub.Server.Verification

open rust rust.utf8 rust.text rust.num rust.map
open yt_websub.util yt_websub.subs yt_websub.renew yt_websub.callback

namespace yt_websub.server

variable {epoch : U64}

/-- The token of the subscribe request that a step sends. -/
def subscribe_token (s : Server) : Action → Option Text
  | .reconcile_insert token _ _ => some (rand_hex token)
  | .renewal_send =>
    match s.renewal with
    | .renewing _ (sub :: _) => some sub.token
    | _ => none
  | _ => none

/-- No subscribe request carries the token of a removed subscription. -/
def LeavesRemoved (sh : Server × History) (a : Action) : Prop :=
  ∀ token, subscribe_token sh.1 a = some token → sh.2.removed token = none

/-- A candidate of a renewal pass is still the stored subscription when its turn comes, as
`merge_attempt` will ask once the request has been sent. -/
def StillStored (s : Server) : Action → Prop
  | .renewal_send =>
    match s.renewal with
    | .renewing _ (sub :: _) => (s.reg.subs.lookup sub.channel_id).map Sub.token = some sub.token
    | _ => True
  | _ => True

/-- A copy in the hands of the renewal thread was removed just when the registry no longer
has it. -/
theorem Tracked.stored_iff {cfg : Config} {s : Server} {h : History} (hs : Tracked cfg epoch s h) {sub : Sub}
    (hsub : sub ∈ s.snapshots) :
    h.removed sub.token = none ↔ (s.reg.subs.lookup sub.channel_id).map Sub.token = some sub.token := by
  rw [Option.map_eq_some_iff]
  constructor
  · intro hremoved
    obtain ⟨cur, hcur, htoken, _⟩ := (hs.snapshots sub hsub).resolve_right (by simp [hremoved])
    exact ⟨cur, hcur, htoken⟩
  · rintro ⟨cur, hcur, htoken⟩
    exact htoken ▸ hs.live _ cur hcur

theorem leaves_removed_iff {cfg : Config} {s s' : Server} {h : History} {a : Action} (hs : Tracked cfg epoch s h)
    (hstep : step cfg s a = some s') : LeavesRemoved (s, h) a ↔ StillStored s a := by
  cases a with
  | reconcile_insert token secret now =>
    refine iff_of_true (fun t ht => ?_) trivial
    cases ht
    -- A token that was removed has been drawn, and the new one has not.
    cases hremoved : h.removed (rand_hex token) with
    | none => rfl
    | some r =>
      simp only [step] at hstep
      split at hstep
      · split at hstep
        · rename_i hfresh
          exact absurd (hs.drawn _ r hremoved).2 hfresh.1
        · cases hstep
      · cases hstep
  | renewal_send =>
    cases hrenewal : s.renewal with
    | renewing last_sig candidates =>
      cases candidates with
      | nil => simp [step, hrenewal] at hstep
      | cons sub candidates =>
        have hsub : sub ∈ s.snapshots := by simp [Server.snapshots, Renewal.snapshots, hrenewal]
        simp only [LeavesRemoved, subscribe_token, StillStored, hrenewal, Option.some.injEq, forall_eq']
        exact hs.stored_iff hsub
    | _ => simp [step, hrenewal] at hstep
  | _ =>
    refine iff_of_true (fun _ ht => ?_) trivial
    cases ht

/-- Removed tokens are left alone in exactly those runs in which every candidate of a
renewal pass is still stored when its request is sent. -/
theorem removed_never_resubscribed_iff {cfg : Config} {clock : U64} {file : Option ChannelsFile}
    {cache : HashMap Text Text} {actions : List Action} {sh : Server × History}
    (hrun : machine.Run (recorded cfg) (.init clock file cache, .empty) actions sh) :
    machine.Along (recorded cfg) LeavesRemoved (.init clock file cache, .empty) actions ↔
      machine.Along (recorded cfg) (fun sh => StillStored sh.1) (.init clock file cache, .empty) actions :=
  hrun.along_congr (fun sh => Tracked cfg clock sh.1 sh.2) (fun _ _ _ => recorded_tracked)
    (fun _ _ _ hs hstep => leaves_removed_iff hs (machine.traced_eq_some.mp hstep).1) (.init cfg clock file cache)

instance (s : Server) (a : Action) : Decidable (StillStored s a) := by
  unfold StillStored
  split
  · split <;> infer_instance
  · infer_instance

/-- The first verification is late, and a renewal pass is about to ask for another. -/
def selectActions : List Action :=
  startupActions ++
    [.renewal_sample, .advance 701, .renewal_sample, .renewal_wake, .renewal_expire [], .renewal_select [firstSub]]

theorem removed_never_resubscribed_iff_renewed :
    machine.Along (recorded ⟨864000⟩) LeavesRemoved (.init 1 (some oneChannelFile) ∅, .empty)
      (selectActions ++ [Action.renewal_send]) := by
  obtain ⟨sh, hrun, _⟩ := machine.exists_run (recorded ⟨864000⟩)
    (show ((selectActions ++ [Action.renewal_send]).foldlM (recorded ⟨864000⟩)
      (.init 1 (some oneChannelFile) ∅, .empty)).any (fun _ => true) = true by decide +kernel)
  refine (removed_never_resubscribed_iff hrun).mpr ?_
  decide +kernel

/-- The subscription is removed after the pass has selected it, and the pass subscribes it
again. -/
theorem removed_resubscribed :
    ∃ s h, machine.Run (recorded ⟨864000⟩) (.init 1 (some oneChannelFile) ∅, .empty)
      (selectActions ++ dropActions) (s, h) ∧
      firstSub ∈ h.unsubscribed ∧ h.removed firstSub.token = some 701 ∧
      subscribe_token s .renewal_send = some firstSub.token ∧ (step ⟨864000⟩ s .renewal_send).isSome ∧
      ¬ LeavesRemoved (s, h) .renewal_send := by
  obtain ⟨⟨s, h⟩, hrun, hdropped⟩ := machine.exists_run (recorded ⟨864000⟩)
    (show ((selectActions ++ dropActions).foldlM (recorded ⟨864000⟩) (.init 1 (some oneChannelFile) ∅, .empty)).any
      (fun sh => firstSub ∈ sh.2.unsubscribed ∧ sh.2.removed firstSub.token = some 701 ∧
        subscribe_token sh.1 .renewal_send = some firstSub.token ∧ (step ⟨864000⟩ sh.1 .renewal_send).isSome) = true by
      decide +kernel)
  rw [decide_eq_true_eq] at hdropped
  obtain ⟨hsub, hremoved, htoken, hsend⟩ := hdropped
  refine ⟨s, h, hrun, hsub, hremoved, htoken, hsend, fun hleaves => ?_⟩
  rw [hleaves _ htoken] at hremoved
  cases hremoved

end yt_websub.server
