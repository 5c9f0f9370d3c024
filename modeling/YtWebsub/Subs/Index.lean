import YtWebsub.Subs.Persistence

open rust rust.utf8 rust.text rust.num rust.map

namespace yt_websub.subs

/-- The three maps of a registry are in step: a token leads to the subscription that has
it and to no other, and a token that still answers for a removed subscription leads nowhere. -/
structure Registry.Indexed (reg : Registry) : Prop where
  keyed : reg.Keyed
  index : ∀ t c, reg.token_channel.lookup t = some c ↔ ∃ s, reg.subs.lookup c = some s ∧ s.token = t
  removed : ∀ t, t ∈ reg.unsub_pending → t ∉ reg.token_channel

theorem Registry.Indexed.by_token_eq_some {reg : Registry} (h : reg.Indexed) {t : Text} {s : Sub} :
    reg.by_token t = some s ↔ reg.subs.lookup s.channel_id = some s ∧ s.token = t := by
  rw [Registry.by_token, Option.bind_eq_some_iff]
  constructor
  · rintro ⟨c, hc, hs⟩
    obtain ⟨s', hs', htoken⟩ := (h.index t c).mp hc
    obtain rfl := Option.some.inj (hs.symm.trans hs')
    exact ⟨by rwa [h.keyed c s hs], htoken⟩
  · rintro ⟨hs, htoken⟩
    exact ⟨s.channel_id, (h.index t _).mpr ⟨s, hs, htoken⟩, hs⟩

/-- Different channels have different tokens. -/
theorem Registry.Indexed.token_injective {reg : Registry} (h : reg.Indexed) {c c' : Text} {s s' : Sub}
    (hs : reg.subs.lookup c = some s) (hs' : reg.subs.lookup c' = some s') (htoken : s.token = s'.token) :
    c = c' := by
  have hc := (h.index s.token c).mpr ⟨s, hs, rfl⟩
  have hc' := (h.index s.token c').mpr ⟨s', hs', htoken.symm⟩
  exact Option.some.inj (hc.symm.trans hc')

/-- No token is both live and answering for a removed subscription. -/
theorem Registry.Indexed.by_token_removed {reg : Registry} (h : reg.Indexed) {t : Text} (ht : t ∈ reg.unsub_pending) :
    reg.by_token t = none := by
  rw [Registry.by_token, AList.lookup_eq_none.mpr (h.removed t ht)]
  rfl

theorem Registry.Indexed.mem_token_channel {reg : Registry} (h : reg.Indexed) {t : Text} :
    t ∈ reg.token_channel ↔ ∃ c s, reg.subs.lookup c = some s ∧ s.token = t := by
  rw [← AList.lookup_isSome, Option.isSome_iff_exists]
  exact exists_congr (h.index t)

theorem indexed_empty : Registry.empty.Indexed where
  keyed c s hs := by simp [Registry.empty] at hs
  index t c := by simp [Registry.empty]
  removed t ht := absurd ht (AList.notMem_empty t)

/-- Two registries in step that hold the same subscriptions find the same ones by token. -/
theorem Registry.Indexed.by_token_congr {reg reg' : Registry} (h : reg.Indexed) (h' : reg'.Indexed)
    (hlookup : ∀ c, reg'.subs.lookup c = reg.subs.lookup c) (t : Text) : reg'.by_token t = reg.by_token t := by
  refine Option.ext fun s => ?_
  rw [h.by_token_eq_some, h'.by_token_eq_some, hlookup]

/-- A new subscription of a new channel under a new token. -/
theorem Registry.Indexed.insert {reg : Registry} (h : reg.Indexed) {s : Sub} (hchannel : s.channel_id ∉ reg.subs)
    (htoken : s.token ∉ reg.token_channel) (hremoved : s.token ∉ reg.unsub_pending) : (reg.insert s).Indexed := by
  have hfresh : reg.token_channel.lookup s.token = none := AList.lookup_eq_none.mpr htoken
  refine ⟨h.keyed.insert s, fun t c => ?_, fun t ht => ?_⟩
  · rw [Registry.insert, lookup_insert_eq_some, h.index t c]
    simp only [lookup_insert_eq_some]
    constructor
    · rintro (⟨rfl, rfl⟩ | ⟨_, s', hs', rfl⟩)
      · exact ⟨s, Or.inl ⟨rfl, rfl⟩, rfl⟩
      · refine ⟨s', Or.inr ⟨?_, hs'⟩, rfl⟩
        rintro rfl
        exact hchannel (AList.lookup_isSome.mp (hs' ▸ rfl))
    · rintro ⟨s', ⟨rfl, rfl⟩ | ⟨hne, hs'⟩, rfl⟩
      · exact Or.inl ⟨rfl, rfl⟩
      · refine Or.inr ⟨fun heq => ?_, s', hs', rfl⟩
        rw [← heq, (h.index s'.token c).mpr ⟨s', hs', rfl⟩] at hfresh
        cases hfresh
  · rw [Registry.insert, AList.mem_insert, not_or]
    refine ⟨?_, h.removed t ht⟩
    rintro rfl
    exact hremoved ht

/-- A sub is replaced by one with the same token. -/
theorem Registry.Indexed.update {reg : Registry} (h : reg.Indexed) {s cur : Sub}
    (hcur : reg.subs.lookup s.channel_id = some cur) (htoken : s.token = cur.token) : (reg.update s).Indexed := by
  have hindex := (h.index s.token s.channel_id).mpr ⟨cur, hcur, htoken.symm⟩
  have hchannels : ∀ t c, (reg.update s).token_channel.lookup t = some c ↔ reg.token_channel.lookup t = some c := by
    intro t c
    simp only [Registry.update, hcur, htoken, ne_eq, not_true_eq_false, if_false]
    rw [lookup_insert_eq_some, ← htoken]
    constructor
    · rintro (⟨rfl, rfl⟩ | ⟨_, hc⟩)
      · exact hindex
      · exact hc
    · intro hc
      by_cases ht : t = s.token
      · subst ht
        exact Or.inl ⟨rfl, Option.some.inj (hc.symm.trans hindex)⟩
      · exact Or.inr ⟨ht, hc⟩
  refine ⟨h.keyed.update s, fun t c => ?_, fun t ht => ?_⟩
  · rw [hchannels, h.index t c]
    simp only [lookup_update]
    constructor
    · rintro ⟨s', hs', rfl⟩
      by_cases hc : c = s.channel_id
      · subst hc
        obtain rfl := Option.some.inj (hs'.symm.trans hcur)
        exact ⟨s, Or.inl ⟨rfl, rfl⟩, htoken⟩
      · exact ⟨s', Or.inr ⟨hc, hs'⟩, rfl⟩
    · rintro ⟨s', ⟨rfl, rfl⟩ | ⟨_, hs'⟩, rfl⟩
      · exact ⟨cur, hcur, htoken.symm⟩
      · exact ⟨s', hs', rfl⟩
  · have hnone := AList.lookup_eq_none.mpr (h.removed t ht)
    rw [← AList.lookup_eq_none, Option.eq_none_iff_forall_ne_some]
    intro c hc
    rw [hchannels, hnone] at hc
    cases hc

/-- Subscriptions change, but keep their channels and tokens. -/
theorem Registry.Indexed.of_map {reg reg' : Registry} (h : reg.Indexed) (f : Sub → Sub)
    (hf : ∀ s, (f s).channel_id = s.channel_id ∧ (f s).token = s.token)
    (hlookup : ∀ c, reg'.subs.lookup c = (reg.subs.lookup c).map f)
    (hchannel : reg'.token_channel = reg.token_channel)
    (hremoved : reg'.unsub_pending = reg.unsub_pending) : reg'.Indexed := by
  refine ⟨fun c s hs => ?_, fun t c => ?_, ?_⟩
  · rw [hlookup] at hs
    obtain ⟨old, hold, rfl⟩ := Option.map_eq_some_iff.mp hs
    exact (hf old).1.trans (h.keyed c old hold)
  · rw [hchannel, h.index t c]
    simp only [hlookup, Option.map_eq_some_iff]
    constructor
    · rintro ⟨s, hs, rfl⟩
      exact ⟨f s, ⟨s, hs, rfl⟩, (hf s).2⟩
    · rintro ⟨_, ⟨s, hs, rfl⟩, rfl⟩
      exact ⟨s, hs, (hf s).2.symm⟩
  · rw [hchannel, hremoved]
    exact h.removed

/-- Fewer tokens answer for removed subscriptions. -/
theorem Registry.Indexed.of_removed {reg reg' : Registry} (h : reg.Indexed) (hsubs : reg'.subs = reg.subs)
    (hchannel : reg'.token_channel = reg.token_channel)
    (hremoved : ∀ t, t ∈ reg'.unsub_pending → t ∈ reg.unsub_pending) :
    reg'.Indexed := by
  refine ⟨fun c s hs => h.keyed c s (hsubs ▸ hs), ?_, ?_⟩
  · rw [hchannel, hsubs]
    exact h.index
  · rw [hchannel]
    exact fun t ht => h.removed t (hremoved t ht)

theorem mem_sweep_unsub {reg : Registry} {now : U64} {t : Text} (h : t ∈ (reg.sweep_unsub now).unsub_pending) :
    t ∈ reg.unsub_pending := by
  rw [← AList.lookup_isSome, Option.isSome_iff_exists] at h ⊢
  obtain ⟨entry, hentry⟩ := h
  exact ⟨entry, (lookup_retain_eq_some.mp hentry).1⟩

theorem Registry.Indexed.forget_unsub {reg : Registry} (h : reg.Indexed) (t : Text) (now : U64) :
    (reg.forget_unsub t now).Indexed :=
  h.of_removed rfl rfl fun _ ht' => (AList.mem_erase.mp (mem_sweep_unsub ht')).2

theorem Registry.Indexed.remove {reg reg' : Registry} (h : reg.Indexed) {c : Text} {now : U64}
    (hremove : reg.remove c now = some reg') : reg'.Indexed := by
  simp only [Registry.remove] at hremove
  split at hremove
  · rename_i s hs
    split at hremove
    · rename_i deadline hdeadline
      rw [Option.some.injEq] at hremove
      subst hremove
      refine ⟨fun c' s' hs' => h.keyed c' s' (lookup_erase_eq_some.mp hs').2, fun t c' => ?_, fun t ht => ?_⟩
      · simp only [Registry.sweep_unsub, lookup_erase_eq_some, h.index t c']
        constructor
        · rintro ⟨hne, s', hs', rfl⟩
          refine ⟨s', ⟨?_, hs'⟩, rfl⟩
          rintro rfl
          exact hne (congrArg Sub.token (Option.some.inj (hs'.symm.trans hs)))
        · rintro ⟨s', ⟨hne, hs'⟩, rfl⟩
          exact ⟨fun htoken => hne (h.token_injective hs' hs htoken), s', hs', rfl⟩
      · intro hlive
        obtain ⟨hne, hlive⟩ := AList.mem_erase.mp (show t ∈ reg.token_channel.erase s.token from hlive)
        obtain rfl | hold := (AList.mem_insert _).mp (mem_sweep_unsub ht)
        · exact hne rfl
        · exact h.removed t hold hlive
    · cases hremove
  · rw [Option.some.injEq] at hremove
    exact hremove ▸ h

/-- Rows of different channels under different tokens are loaded into a registry in step. -/
theorem Registry.Indexed.foldl_insert {reg : Registry} (h : reg.Indexed) {order : List Sub}
    (hchannels : (order.map Sub.channel_id).Nodup) (htokens : (order.map Sub.token).Nodup)
    (hnew : ∀ s ∈ order, s.channel_id ∉ reg.subs ∧ s.token ∉ reg.token_channel)
    (hremoved : ∀ s ∈ order, s.token ∉ reg.unsub_pending) : (order.foldl Registry.insert reg).Indexed := by
  induction order generalizing reg with
  | nil => exact h
  | cons s order ih =>
    obtain ⟨hchannel, hchannels⟩ := List.nodup_cons.mp hchannels
    obtain ⟨htoken, htokens⟩ := List.nodup_cons.mp htokens
    obtain ⟨hs, hnew⟩ := List.forall_mem_cons.mp hnew
    obtain ⟨hsremoved, hremoved⟩ := List.forall_mem_cons.mp hremoved
    refine ih (h.insert hs.1 hs.2 hsremoved) hchannels htokens (fun t ht => ⟨?_, ?_⟩) hremoved
    · rw [mem_insert, not_or]
      exact ⟨fun heq => hchannel (heq ▸ List.mem_map_of_mem ht), (hnew t ht).1⟩
    · rw [Registry.insert, AList.mem_insert, not_or]
      exact ⟨fun heq => htoken (heq ▸ List.mem_map_of_mem ht), (hnew t ht).2⟩

theorem Registry.Indexed.nodup_tokens {reg : Registry} (h : reg.Indexed) :
    ((values reg.subs).map Sub.token).Nodup := by
  refine (List.nodup_map_iff_inj_on h.keyed.nodup_channels.of_map).mpr fun s hs s' hs' htoken => ?_
  obtain ⟨c, hc⟩ := mem_values.mp hs
  obtain ⟨c', hc'⟩ := mem_values.mp hs'
  obtain rfl := h.token_injective hc hc' htoken
  exact Option.some.inj (hc.symm.trans hc')

/-- A saved registry is loaded in step. -/
theorem Registry.Indexed.load_save {reg : Registry} (h : reg.Indexed) (hstorable : ∀ s ∈ values reg.subs, s.Storable)
    {order : List Sub} {bytes : Bytes} (hsave : reg.save order = some bytes) :
    (Registry.load (some bytes)).Indexed := by
  obtain ⟨hperm, rfl⟩ := save_eq_some.mp hsave
  rw [load_render fun s hs => hstorable s (hperm.mem_iff.mp hs)]
  refine indexed_empty.foldl_insert ((hperm.map _).nodup_iff.mpr h.keyed.nodup_channels)
    ((hperm.map _).nodup_iff.mpr h.nodup_tokens) (fun s _ => ⟨?_, ?_⟩) fun s _ => ?_
  all_goals exact AList.notMem_empty _

theorem load_rows_unsub_pending (lines : List Text) (reg : Registry) :
    (load_rows lines reg).unsub_pending = reg.unsub_pending := by
  fun_induction load_rows lines reg with
  | case1 => rfl
  | case2 reg line lines s hline ih => exact ih
  | case3 reg line lines hline ih => exact ih

/-- The tokens of removed subscriptions are not stored. -/
theorem load_unsub_pending (content : Option Bytes) : (Registry.load content).unsub_pending = ∅ := by
  unfold Registry.load
  split
  · exact load_rows_unsub_pending _ _
  · rfl

end yt_websub.subs
