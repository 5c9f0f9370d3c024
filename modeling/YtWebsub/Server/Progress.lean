import YtWebsub.Server.Effect

open rust rust.utf8 rust.text rust.num rust.map
open yt_websub.subs yt_websub.renew yt_websub.callback

namespace yt_websub.server

/-- Everything a step can do to the reconcile in progress and to the set of channels
that have a subscription. -/
inductive Progress (s : Server) (a : Action) (s' : Server) : Prop where
  | other (lock : s'.reconcile_lock = s.reconcile_lock) (channels : ∀ c, c ∈ s'.reg.subs ↔ c ∈ s.reg.subs)
      (last_read : s'.last_read = s.last_read)
  | taken (holder : Holder) (free : s.reconcile_lock = none) (lock : s'.reconcile_lock = some (holder, .reading))
      (channels : s'.reg.subs = s.reg.subs) (last_read : s'.last_read = s.last_read)
  | read (holder : Holder) (readable : Bool) (fetch : Nat → Text → Option Bytes) (content : Option Bytes)
      (action : a = .reconcile_read readable fetch)
      (file : content = if readable then s.file.map ChannelsFile.content else none)
      (held : s.reconcile_lock = some (holder, .reading))
      (lock : s'.reconcile_lock = some (holder, .diffing (desired_set content fetch s.resolve_cache).1
        (desired_set content fetch s.resolve_cache).2.1))
      (channels : s'.reg.subs = s.reg.subs)
      (last_read : s'.last_read = some { content, cache := s.resolve_cache, fetch }) (same : s'.file = s.file)
  | diff (holder : Holder) (desired : List Text) (complete : Bool) (removes : List Sub)
      (action : a = .reconcile_diff removes) (held : s.reconcile_lock = some (holder, .diffing desired complete))
      (removed : removes.Perm (to_remove s.reg desired complete))
      (lock : s'.reconcile_lock = some (holder, .pausing (to_add s.reg desired) removes))
      (channels : s'.reg.subs = s.reg.subs) (last_read : s'.last_read = s.last_read)
  | insert (holder : Holder) (cid : Text) (token secret : Bytes) (now : U64) (adds : List Text) (removes : List Sub)
      (held : s.reconcile_lock = some (holder, .pausing (cid :: adds) removes))
      (lock : s'.reconcile_lock = some (holder, .subscribing (new_sub cid token secret now) adds removes))
      (channels : ∀ c, c ∈ s'.reg.subs ↔ c = cid ∨ c ∈ s.reg.subs) (last_read : s'.last_read = s.last_read)
  | answer (holder : Holder) (sub : Sub) (adds : List Text) (removes : List Sub)
      (held : s.reconcile_lock = some (holder, .subscribing sub adds removes))
      (lock : s'.reconcile_lock = some (holder, .pausing adds removes))
      (channels : ∀ c, c ∈ s'.reg.subs ↔ c ∈ s.reg.subs) (last_read : s'.last_read = s.last_read)
  | unsubscribe (holder : Holder) (sub : Sub) (removes : List Sub)
      (held : s.reconcile_lock = some (holder, .pausing [] (sub :: removes)))
      (lock : s'.reconcile_lock = some (holder, .unsubscribing sub removes))
      (channels : s'.reg.subs = s.reg.subs) (last_read : s'.last_read = s.last_read)
  | remove (holder : Holder) (sub : Sub) (removes : List Sub) (action : a = .reconcile_remove)
      (held : s.reconcile_lock = some (holder, .unsubscribing sub removes))
      (lock : s'.reconcile_lock = some (holder, .pausing [] removes))
      (channels : ∀ c, c ∈ s'.reg.subs ↔ c ≠ sub.channel_id ∧ c ∈ s.reg.subs) (last_read : s'.last_read = s.last_read)
  | finish (holder : Holder) (held : s.reconcile_lock = some (holder, .pausing [] []))
      (lock : s'.reconcile_lock = none) (channels : s'.reg.subs = s.reg.subs) (last_read : s'.last_read = s.last_read)
  | restart (action : ∃ cache, a = .restart cache) (lock : s'.reconcile_lock = none) (last_read : s'.last_read = none)
      (renewal : s'.renewal = .starting)

/-- A saved change of a stored subscription leaves the reconcile alone. -/
theorem Progress.of_merge {s s' : Server} {sub : Sub} {order : List Sub} (h : s.merge sub order = some s') :
    s'.reconcile_lock = s.reconcile_lock ∧ (∀ c, c ∈ s'.reg.subs ↔ c ∈ s.reg.subs) ∧ s'.last_read = s.last_read := by
  obtain rfl | ⟨cur, _, hcur, _, _, rfl⟩ := merge_spec h
  · exact ⟨rfl, fun c => Iff.rfl, rfl⟩
  · rw [← write_back_channel_id cur sub] at hcur
    exact ⟨rfl, fun c => mem_update hcur, rfl⟩

/-- Every step is one of these. -/
theorem step_progress {cfg : Config} {s s' : Server} {a : Action} (hkeyed : s.reg.Keyed)
    (hstep : step cfg s a = some s') : Progress s a s' := by
  have hsame : ∀ {t : Server}, t.reconcile_lock = s.reconcile_lock → t.reg.subs = s.reg.subs →
      t.last_read = s.last_read → Progress s a t := fun hlock hsubs hread =>
    .other hlock (fun c => by rw [hsubs]) hread
  cases a with
  | advance clock =>
    simp only [step] at hstep
    split at hstep <;> cases hstep
    exact hsame rfl rfl rfl
  | edit file =>
    cases hstep
    exact hsame rfl rfl rfl
  | post_render received =>
    cases hstep
    exact hsame rfl rfl rfl
  | post_write i mtime =>
    simp only [step] at hstep
    split at hstep <;> cases hstep
    exact hsame rfl rfl rfl
  | post_fail i =>
    simp only [step] at hstep
    split at hstep <;> cases hstep
    exact hsame rfl rfl rfl
  | post_try_lock i =>
    simp only [step] at hstep
    split at hstep
    · rename_i hfree
      cases hstep
      exact .taken (.api i) hfree rfl rfl rfl
    · cases hstep
      exact hsame rfl rfl rfl
    · cases hstep
  | renewal_lock =>
    simp only [step] at hstep
    split at hstep
    · rename_i hfree
      cases hstep
      exact .taken .renewal hfree rfl rfl rfl
    · rename_i hfree
      cases hstep
      exact .taken .renewal hfree rfl rfl rfl
    · cases hstep
  | reconcile_read readable fetch =>
    simp only [step] at hstep
    split at hstep
    · rename_i holder hheld
      cases hstep
      exact .read holder readable fetch _ rfl rfl hheld rfl rfl rfl rfl
    · cases hstep
  | reconcile_diff removes =>
    simp only [step] at hstep
    split at hstep
    · rename_i holder desired complete hheld
      split at hstep
      · rename_i hperm
        cases hstep
        exact .diff holder desired complete removes rfl hheld hperm rfl rfl rfl
      · cases hstep
    · cases hstep
  | reconcile_insert token secret now =>
    simp only [step] at hstep
    split at hstep
    · rename_i holder cid adds removes hheld
      split at hstep
      · cases hstep
        exact .insert holder cid token secret now adds removes hheld rfl (fun c => mem_insert) rfl
      · cases hstep
    · cases hstep
  | reconcile_answer res now drawn order =>
    simp only [step] at hstep
    split at hstep
    · rename_i holder sub adds removes hheld
      split at hstep
      · cases hstep
        exact .answer holder sub adds removes hheld rfl (fun c => Iff.rfl) rfl
      · split at hstep
        · obtain ⟨after, _, hmerge⟩ := Option.bind_eq_some_iff.mp hstep
          obtain ⟨hlock, hchannels, hread⟩ := Progress.of_merge hmerge
          exact .answer holder sub adds removes hheld hlock hchannels hread
        · cases hstep
    · cases hstep
  | reconcile_unsubscribe =>
    simp only [step] at hstep
    split at hstep
    · rename_i holder sub removes hheld
      cases hstep
      exact .unsubscribe holder sub removes hheld rfl rfl rfl
    · cases hstep
  | reconcile_remove =>
    simp only [step] at hstep
    split at hstep
    · rename_i holder sub removes hheld
      obtain ⟨reg, hreg, rfl⟩ := Option.map_eq_some_iff.mp hstep
      exact .remove holder sub removes rfl hheld rfl (fun c => mem_remove hreg) rfl
    · cases hstep
  | reconcile_finish order =>
    simp only [step] at hstep
    split at hstep
    · rename_i holder hheld
      obtain ⟨_, _, rfl⟩ := save_spec hstep
      cases holder <;> exact .finish _ hheld rfl rfl rfl
    · cases hstep
  | renewal_sample =>
    simp only [step] at hstep
    split at hstep <;> cases hstep <;> exact hsame rfl rfl rfl
  | renewal_wake =>
    simp only [step] at hstep
    split at hstep <;> cases hstep
    exact hsame rfl rfl rfl
  | renewal_expire order =>
    simp only [step] at hstep
    split at hstep
    · split at hstep
      · cases hstep
        exact hsame rfl rfl rfl
      · rename_i reg hreg
        obtain ⟨_, _, rfl⟩ := save_spec hstep
        exact .other rfl (fun c => mem_expire_lapsed hreg) rfl
    · cases hstep
  | renewal_select order =>
    simp only [step] at hstep
    split at hstep
    · split at hstep
      · obtain ⟨_, _, rfl⟩ := Option.map_eq_some_iff.mp hstep
        exact hsame rfl rfl rfl
      · cases hstep
    · cases hstep
  | renewal_send =>
    simp only [step] at hstep
    split at hstep <;> cases hstep
    exact hsame rfl rfl rfl
  | renewal_answer res now drawn order =>
    simp only [step] at hstep
    split at hstep
    · split at hstep
      · obtain ⟨after, _, hmerge⟩ := Option.bind_eq_some_iff.mp hstep
        obtain ⟨hlock, hchannels, hread⟩ := Progress.of_merge hmerge
        exact .other hlock hchannels hread
      · cases hstep
    · cases hstep
  | renewal_sleep =>
    simp only [step] at hstep
    split at hstep <;> cases hstep
    exact hsame rfl rfl rfl
  | get_lookup token query =>
    simp only [step] at hstep
    split at hstep <;> cases hstep <;> exact hsame rfl rfl rfl
  | get_verify i order =>
    simp only [step] at hstep
    split at hstep
    · split at hstep
      · cases hstep
        exact hsame rfl rfl rfl
      · rename_i cur hcur
        obtain ⟨cid, _, hstored⟩ := Option.bind_eq_some_iff.mp hcur
        obtain ⟨_, _, rfl⟩ := save_spec hstep
        have hchannel := hkeyed cid cur hstored
        exact .other rfl (fun c => mem_update (hchannel ▸ hstored)) rfl
    · cases hstep
  | get_unsub_topic i now =>
    simp only [step] at hstep
    split at hstep
    · split at hstep
      · split at hstep <;> cases hstep <;> exact hsame rfl rfl rfl
      · cases hstep
    · cases hstep
  | get_forget i =>
    simp only [step] at hstep
    split at hstep <;> cases hstep
    exact hsame rfl rfl rfl
  | restart cache =>
    cases hstep
    exact .restart ⟨cache, rfl⟩ rfl rfl rfl

end yt_websub.server
