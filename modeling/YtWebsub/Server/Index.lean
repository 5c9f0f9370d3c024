import YtWebsub.Server.Liveness
import YtWebsub.Subs.Index

open rust rust.utf8 rust.text rust.num rust.map
open yt_websub.subs yt_websub.renew yt_websub.callback

namespace yt_websub.server

variable {epoch : U64}

/-- The channels that a reconcile has still to add have no subscription. -/
def Server.Missing (s : Server) : Prop :=
  match s.reconcile_lock with
  | some (_, .diffing desired _) => desired.Nodup
  | some (_, .pausing to_add _) | some (_, .subscribing _ to_add _) => to_add.Nodup ∧ ∀ c ∈ to_add, c ∉ s.reg.subs
  | _ => True

theorem Progress.missing {s s' : Server} {a : Action} (h : Progress s a s') (hs : s.Missing) : s'.Missing := by
  unfold Server.Missing at hs ⊢
  cases h with
  | other lock channels last_read =>
    rw [lock]
    simpa only [channels] using hs
  | taken holder free lock channels last_read =>
    rw [lock]
    trivial
  | read holder readable fetch content action file held lock channels last_read same =>
    rw [lock]
    exact desired_set_nodup content fetch s.resolve_cache
  | diff holder desired complete removes action held removed lock channels last_read =>
    rw [held] at hs
    rw [lock, channels]
    exact ⟨hs.filter _, fun c hc => of_decide_eq_true (List.mem_filter.mp hc).2⟩
  | insert holder cid token secret now adds removes held lock channels last_read =>
    rw [held] at hs
    rw [lock]
    obtain ⟨hnodup, hmissing⟩ := hs
    obtain ⟨hcid, hnodup⟩ := List.nodup_cons.mp hnodup
    refine ⟨hnodup, fun c hc => ?_⟩
    rw [channels, not_or]
    exact ⟨fun heq => hcid (heq ▸ hc), hmissing c (List.mem_cons_of_mem _ hc)⟩
  | answer holder sub adds removes held lock channels last_read =>
    rw [held] at hs
    rw [lock]
    simpa only [channels] using hs
  | unsubscribe holder sub removes held lock channels last_read =>
    rw [lock]
    trivial
  | remove holder sub removes action held lock channels last_read =>
    rw [lock]
    exact ⟨List.nodup_nil, fun c hc => absurd hc List.not_mem_nil⟩
  | finish holder held lock channels last_read =>
    rw [lock]
    trivial
  | restart action lock last_read renewal =>
    rw [lock]
    trivial

/-- The maps of the registry are in step, in memory and as a restart will find them, and
the tokens that answer for removed subscriptions were drawn. -/
structure Consistent (cfg : Config) (epoch : U64) (s : Server) : Prop where
  accounted : Accounted cfg epoch s
  memory : s.reg.Indexed
  stored : (Registry.load s.disk).Indexed
  missing : s.Missing
  removed : ∀ t, t ∈ s.reg.unsub_pending → t ∈ s.tokens

theorem expire_indexed {reg reg' : Registry} (h : reg.Indexed) {now : U64}
    (hexpire : expire_lapsed reg now = some reg') :
    reg'.Indexed ∧ reg'.unsub_pending = reg.unsub_pending := by
  have hmaps : reg'.token_channel = reg.token_channel ∧ reg'.unsub_pending = reg.unsub_pending := by
    simp only [expire_lapsed] at hexpire
    split at hexpire <;> cases hexpire
    exact ⟨rfl, rfl⟩
  refine ⟨h.of_map _ (fun s => ?_) (expire_lapsed_spec h.keyed hexpire) hmaps.1 hmaps.2, hmaps.2⟩
  split <;> exact ⟨rfl, rfl⟩

/-- A removal leaves its token answering, and adds no other. -/
theorem removed_of_remove {reg reg' : Registry} {c : Text} {now : U64} (hremove : reg.remove c now = some reg')
    {t : Text}
    (ht : t ∈ reg'.unsub_pending) : t ∈ reg.unsub_pending ∨ ∃ s, reg.subs.lookup c = some s ∧ s.token = t := by
  simp only [Registry.remove] at hremove
  split at hremove
  · rename_i s hs
    split at hremove
    · rw [Option.some.injEq] at hremove
      subst hremove
      obtain rfl | hold := (AList.mem_insert _).mp (mem_sweep_unsub ht)
      · exact Or.inr ⟨s, hs, rfl⟩
      · exact Or.inl hold
    · cases hremove
  · rw [Option.some.injEq] at hremove
    exact Or.inl (hremove ▸ ht)

theorem step_consistent {cfg : Config} {s s' : Server} {a : Action} (h : Consistent cfg epoch s)
    (hstep : step cfg s a = some s') : Consistent cfg epoch s' := by
  have haccounted := step_accounted h.accounted hstep
  have hmissing := (step_progress h.memory.keyed hstep).missing h.missing
  have hsaved : ∀ reg, Saved s' reg → reg.Indexed → s'.tokens = s.tokens →
      reg.unsub_pending = s.reg.unsub_pending → Consistent cfg epoch s' := by
    intro reg hsaved hindexed htokens hremoved
    obtain ⟨hreg, order, bytes, hsave, hdisk⟩ := hsaved
    subst hreg
    refine ⟨haccounted, hindexed, ?_, hmissing, ?_⟩
    · rw [hdisk]
      exact hindexed.load_save haccounted.sound.memory.storable hsave
    · rw [htokens, hremoved]
      exact h.removed
  cases step_effect hstep with
  | quiet clock reg disk grants tokens snapshots =>
    refine ⟨haccounted, reg ▸ h.memory, disk ▸ h.stored, hmissing, ?_⟩
    rw [reg, tokens]
    exact h.removed
  | insert cid token secret now holder adds removes action held time fresh clock reg disk grants tokens snapshots =>
    have hcid : cid ∉ s.reg.subs := by
      have hadds := h.missing
      rw [Server.Missing, held] at hadds
      exact hadds.2 cid List.mem_cons_self
    refine ⟨haccounted, ?_, disk ▸ h.stored, hmissing, ?_⟩
    · rw [reg]
      refine h.memory.insert hcid (fun hlive => ?_) (fun ht => fresh (h.removed _ ht))
      obtain ⟨c, sub, hsub, htoken⟩ := h.memory.mem_token_channel.mp hlive
      exact fresh (htoken ▸ h.accounted.memory.drawn c sub hsub)
    · rw [reg, tokens]
      exact fun t ht => List.mem_append_left _ (h.removed t ht)
  | merge before after cur action snapshot outcome stored same clock saved grants tokens snapshots =>
    have hstored : s.reg.subs.lookup (write_back cur after).channel_id = some cur := by rwa [write_back_channel_id]
    refine hsaved _ saved (h.memory.update hstored ?_) tokens rfl
    rw [write_back_token, same]
  | verify cid cur lease action stored capped clock saved grants tokens snapshots =>
    obtain rfl := h.memory.keyed cid cur stored
    have hstored : s.reg.subs.lookup (verified cur lease s.clock).channel_id = some cur := stored
    exact hsaved _ saved (h.memory.update hstored rfl) tokens rfl
  | expire now last_sig action pc reg lapsed clock saved grants tokens snapshots =>
    obtain ⟨hindexed, hremoved⟩ := expire_indexed h.memory lapsed
    exact hsaved _ saved hindexed tokens hremoved
  | remove holder sub removes action held reg clock disk grants tokens snapshots =>
    refine ⟨haccounted, h.memory.remove reg, disk ▸ h.stored, hmissing, fun t ht => ?_⟩
    rw [tokens]
    obtain hold | ⟨cur, hcur, rfl⟩ := removed_of_remove reg ht
    · exact h.removed t hold
    · exact h.accounted.memory.drawn _ cur hcur
  | forget i token now challenge action confirming clock reg disk grants tokens snapshots =>
    refine ⟨haccounted, ?_, disk ▸ h.stored, hmissing, fun t ht => ?_⟩
    · rw [reg]
      exact h.memory.forget_unsub token now
    · rw [tokens]
      rw [reg] at ht
      exact h.removed t (AList.mem_erase.mp (mem_sweep_unsub ht)).2
  | save action clock saved grants tokens snapshots => exact hsaved _ saved h.memory tokens rfl
  | restart cache action clock reg disk grants tokens snapshots =>
    refine ⟨haccounted, reg ▸ h.stored, disk ▸ h.stored, hmissing, fun t ht => ?_⟩
    rw [reg, load_unsub_pending] at ht
    exact absurd ht (AList.notMem_empty t)

theorem Consistent.init (cfg : Config) (clock : U64) (file : Option ChannelsFile) (cache : HashMap Text Text) :
    Consistent cfg clock (.init clock file cache) where
  accounted := .init cfg clock file cache
  memory := indexed_empty
  stored := indexed_empty
  missing := trivial
  removed t ht := absurd ht (AList.notMem_empty t)

theorem consistent_of_run {cfg : Config} {clock : U64} {file : Option ChannelsFile}
    {cache : HashMap Text Text} {actions : List Action} {s : Server}
    (hrun : machine.Run (step cfg) (.init clock file cache) actions s) : Consistent cfg clock s :=
  hrun.invariant (Consistent cfg clock) (fun _ _ _ => step_consistent) (.init cfg clock file cache)

/-- In every state of the server, a token finds the subscription that has it and no other,
and none while it answers for a removed one. -/
theorem token_index_exact {cfg : Config} {clock : U64} {file : Option ChannelsFile}
    {cache : HashMap Text Text} {actions : List Action} {s : Server}
    (hrun : machine.Run (step cfg) (.init clock file cache) actions s) :
    (∀ t sub, s.reg.by_token t = some sub ↔ s.reg.subs.lookup sub.channel_id = some sub ∧ sub.token = t) ∧
      (∀ c c' sub sub', s.reg.subs.lookup c = some sub → s.reg.subs.lookup c' = some sub' → c ≠ c' →
        sub.token ≠ sub'.token) ∧
      (∀ c sub, s.reg.subs.lookup c = some sub → sub.channel_id = c) ∧
      ∀ t, t ∈ s.reg.unsub_pending → s.reg.by_token t = none := by
  have hindexed := (consistent_of_run hrun).memory
  refine ⟨fun t sub => hindexed.by_token_eq_some, fun c c' sub sub' hsub hsub' hne htoken => ?_, hindexed.keyed,
    fun t => hindexed.by_token_removed⟩
  exact hne (hindexed.token_injective hsub hsub' htoken)

/-- Two channels are subscribed to at startup, and a request removes the second. -/
def removeActions : List Action :=
  [.renewal_lock, .reconcile_read true (fun _ _ => none), .reconcile_diff [],
    .reconcile_insert [0x11, 0x22] [0x33, 0x44] 1, .reconcile_answer (.ok 202) 1 0 [],
    .reconcile_insert [0x55, 0x66] [0x77, 0x88] 1, .reconcile_answer (.ok 202) 1 0 [],
    .reconcile_finish [firstSub, secondSub],
    .post_render (encode "\x7b\"channels\":[\"UCabcdefghijklmnopqrstuv\"]\x7d".toList), .post_write 0 3,
    .post_try_lock 0, .reconcile_read true (fun _ _ => none), .reconcile_diff [secondSub], .reconcile_unsubscribe,
    .reconcile_remove, .reconcile_finish [firstSub]]

theorem token_index_exact_removed :
    ∃ s, machine.Run (step ⟨864000⟩) (.init 1 (some twoChannelFile) ∅) removeActions s ∧
      s.reg.by_token firstSub.token = some firstSub ∧ secondSub.token ∈ s.reg.unsub_pending ∧
      s.reg.by_token secondSub.token = none := by
  obtain ⟨s, hrun, hs⟩ := machine.exists_run (step ⟨864000⟩)
    (show (removeActions.foldlM (step ⟨864000⟩) (.init 1 (some twoChannelFile) ∅)).any (fun s =>
      s.reg.subs.lookup firstSub.channel_id = some firstSub ∧ secondSub.token ∈ s.reg.unsub_pending) = true by
        decide +kernel)
  rw [decide_eq_true_eq] at hs
  obtain ⟨hfirst, hremoved⟩ := hs
  obtain ⟨hexact, _, _, htombstone⟩ := token_index_exact hrun
  exact ⟨s, hrun, (hexact firstSub.token firstSub).mpr ⟨hfirst, rfl⟩, hremoved, htombstone _ hremoved⟩

/-- What `save` is called on: the maps are in step, and every subscription has an id that
`is_channel_id` accepts, a token and a secret without special characters, one of the four
states and an error that was cut to length. -/
structure Writable (reg : Registry) : Prop where
  indexed : reg.Indexed
  storable : ∀ sub ∈ values reg.subs, sub.Storable

/-- Every registry that the program has can be written, and what can be written, in any
order, is read back with the same subscriptions and tokens; rows in the older format lose
nothing but the last error. -/
theorem registry_round_trip {cfg : Config} {clock : U64} {file : Option ChannelsFile}
    {cache : HashMap Text Text} :
    (∀ actions s, machine.Run (step cfg) (.init clock file cache) actions s → Writable s.reg) ∧
      ∀ reg order bytes, Writable reg → reg.save order = some bytes →
        (∀ c, (Registry.load (some bytes)).subs.lookup c = reg.subs.lookup c) ∧
        (∀ t, (Registry.load (some bytes)).by_token t = reg.by_token t) ∧
        ∀ old c, (Registry.load (some (render_aged old order))).subs.lookup c =
          (reg.subs.lookup c).map (Sub.aged old) := by
  refine ⟨fun actions s hrun => ?_, fun reg order bytes hwritable hsave => ⟨fun c => ?_, fun t => ?_, fun old c => ?_⟩⟩
  · have hconsistent := consistent_of_run hrun
    exact ⟨hconsistent.memory, hconsistent.accounted.sound.memory.storable⟩
  · exact load_save hwritable.indexed.keyed hwritable.storable hsave c
  · exact hwritable.indexed.by_token_congr (hwritable.indexed.load_save hwritable.storable hsave)
      (load_save hwritable.indexed.keyed hwritable.storable hsave) t
  · exact load_aged hwritable.indexed.keyed hwritable.storable (save_eq_some.mp hsave).1 old c

/-- The hub refuses the second channel, with an error of more than one line. -/
def refusedSub : Sub :=
  { secondSub with
    state := failed
    fail_count := 1
    next_attempt_at := 61
    last_error := "no route\tto the hub:\ntimed out".toList }

def refuseActions : List Action :=
  [.renewal_lock, .reconcile_read true (fun _ _ => none), .reconcile_diff [],
    .reconcile_insert [0x11, 0x22] [0x33, 0x44] 1, .reconcile_answer (.ok 202) 1 0 [],
    .reconcile_insert [0x55, 0x66] [0x77, 0x88] 1,
    .reconcile_answer (.error "no route\tto the hub:\ntimed out".toList) 1 0 [firstSub, refusedSub],
    .reconcile_finish [refusedSub, firstSub]]

theorem registry_round_trip_refused :
    ∃ s, machine.Run (step ⟨864000⟩) (.init 1 (some twoChannelFile) ∅) refuseActions s ∧
      s.reg.subs.lookup firstSub.channel_id = some firstSub ∧
      s.reg.subs.lookup refusedSub.channel_id = some refusedSub ∧
      (∀ c, (Registry.load (some (render [refusedSub, firstSub]))).subs.lookup c = s.reg.subs.lookup c) ∧
      (∀ t, (Registry.load (some (render [refusedSub, firstSub]))).by_token t = s.reg.by_token t) ∧
      (Registry.load (some (render_aged (fun sub => sub = refusedSub) [refusedSub, firstSub]))).subs.lookup
        refusedSub.channel_id = some { refusedSub with last_error := [] } := by
  obtain ⟨s, hrun, hs⟩ := machine.exists_run (step ⟨864000⟩)
    (show (refuseActions.foldlM (step ⟨864000⟩) (.init 1 (some twoChannelFile) ∅)).any (fun s =>
      s.reg.subs.lookup firstSub.channel_id = some firstSub ∧
        s.reg.subs.lookup refusedSub.channel_id = some refusedSub ∧
        s.reg.save [refusedSub, firstSub] = some (render [refusedSub, firstSub])) = true by decide +kernel)
  rw [decide_eq_true_eq] at hs
  obtain ⟨hfirst, hrefused, hsave⟩ := hs
  obtain ⟨hwritable, hround⟩ := @registry_round_trip ⟨864000⟩ 1 (some twoChannelFile) ∅
  obtain ⟨hsubs, htokens, haged⟩ := hround _ _ _ (hwritable _ _ hrun) hsave
  refine ⟨s, hrun, hfirst, hrefused, hsubs, htokens, ?_⟩
  rw [haged, hrefused]
  rfl

end yt_websub.server
