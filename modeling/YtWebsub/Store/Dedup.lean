import YtWebsub.Atom
import YtWebsub.Base.Recent
import YtWebsub.Store.Cursor
import YtWebsub.Store.Framing
import YtWebsub.Store.Restart

open rust rust.utf8 rust.text rust.num rust.fs
open yt_websub.util
open recent

namespace yt_websub.store

/-- The arguments that the callback takes from an entry of a feed. -/
def Call.Admitted (c : Call) : Prop :=
  atom.is_video_id c.video_id = true ∧ atom.isKind c.kind

/-- The arguments repeat the video, the timestamp and the kind of the event. -/
def Call.Repeats (c : Call) (e : Event) : Prop :=
  e.video_id = c.video_id ∧ e.ts = c.ts ∧ e.kind = c.kind

theorem Call.Admitted.key_eq_iff {c : Call} (h : c.Admitted) {e : Event} (he : e.Unambiguous) :
    e.key = c.key ↔ c.Repeats e := by
  obtain ⟨hvideo, hkind⟩ := atom.separator_free h.1 h.2
  constructor
  · exact dedup_key_injective he.1 hvideo he.2 hkind
  · rintro ⟨hvideo, hts, hkind⟩
    rw [Event.key, Call.key, hvideo, hts, hkind]

theorem push_recent_eq {recent : List Event} (hbounded : recent.length ≤ RECENT_CAP) (e : Event) :
    push_recent recent e = (recent ++ [e]).rtake RECENT_CAP := by
  rw [← push_recent_rtake, rtake_of_length_le hbounded]

namespace lifecycle

/-- No two events of the log that are close enough to meet in a window share a key, and the
window, whose keys are the remembered ones, reaches at least as far back as the log does. -/
structure Deduplicated (fs : FileSystem) (store : Store) : Prop where
  numbered : Numbered fs store
  unambiguous : ∀ e ∈ logged fs, e.Unambiguous
  spaced : Spaced Event.key RECENT_CAP (logged fs)
  covered : (logged fs).rtake RECENT_CAP <:+ store.recent
  bounded : store.recent.length ≤ RECENT_CAP
  distinct : (store.recent.map Event.key).Nodup
  keys : store.seen = (store.recent.map Event.key).toFinset

theorem Deduplicated.init : Deduplicated Session.init.fs Session.init.process where
  numbered := Ordered.init.numbered
  unambiguous := fun _ he => absurd he (List.not_mem_nil)
  spaced := Spaced.nil
  covered := List.suffix_rfl
  bounded := Nat.zero_le _
  distinct := List.nodup_nil
  keys := rfl

theorem Deduplicated.not_mem_seen {fs : FileSystem} {store : Store} (h : Deduplicated fs store) {key : Text} :
    key ∉ store.seen ↔ key ∉ store.recent.map Event.key := by
  rw [h.keys, List.mem_toFinset]

/-- An append that is not suppressed adds its event at the end of the log and of the window. -/
theorem Deduplicated.append {fs fs' : FileSystem} {store : Store} (h : Deduplicated fs store) {c : Call}
    (hc : c.Admitted) (hnew : c.key ∉ store.seen) {next_seq : U64}
    (hnumbered : Numbered fs' (store.recorded (store.event c) next_seq))
    (hlogged : logged fs' = logged fs ++ [store.event c]) :
    Deduplicated fs' (store.recorded (store.event c) next_seq) := by
  have hfresh := h.not_mem_seen.mp hnew
  have hpush := push_recent_eq h.bounded (store.event c)
  refine ⟨hnumbered, ?_, ?_, ?_, ?_, ?_, ?_⟩
  · intro e he
    rw [hlogged] at he
    obtain he | he := List.mem_append.mp he
    · exact h.unambiguous e he
    · obtain rfl := List.mem_singleton.mp he
      exact atom.separator_free hc.1 hc.2
  · rw [hlogged]
    exact h.spaced.concat fun hmem => hfresh (List.map_subset _ h.covered.subset hmem)
  · have hlength : ((logged fs).rtake RECENT_CAP).length ≤ RECENT_CAP := h.covered.length_le.trans h.bounded
    rw [hlogged, ← push_recent_rtake, push_recent_eq hlength]
    change _ <:+ push_recent store.recent (store.event c)
    rw [hpush]
    exact rtake_suffix_rtake (suffix_append_right h.covered _) RECENT_CAP
  · change (push_recent store.recent (store.event c)).length ≤ RECENT_CAP
    rw [hpush, List.rtake, List.length_drop]
    omega
  · change ((push_recent store.recent (store.event c)).map Event.key).Nodup
    have hall : ((store.recent ++ [store.event c]).map Event.key).Nodup := by
      rw [List.map_append, List.map_singleton, List.nodup_append_comm]
      exact List.nodup_cons.mpr ⟨hfresh, h.distinct⟩
    exact hall.sublist ((push_recent_suffix _ _).sublist.map _)
  · change push_seen store.seen store.recent (store.event c) = _
    rw [h.keys]
    exact (push_seen_keys (e := store.event c) h.distinct hfresh).1

/-- What only the acknowledged cursor and the handle of the log can change in. -/
theorem Deduplicated.unmoved {fs fs' : FileSystem} {store store' : Store} (h : Deduplicated fs store)
    (hnumbered : Numbered fs' store') (hkept : logged fs' <:+ logged fs) (hrecent : store'.recent = store.recent)
    (hseen : store'.seen = store.seen) : Deduplicated fs' store' := by
  refine ⟨hnumbered, fun e he => h.unambiguous e (hkept.subset he), h.spaced.of_suffix hkept, ?_, ?_, ?_, ?_⟩
  · rw [hrecent]
    exact (rtake_suffix_rtake hkept RECENT_CAP).trans h.covered
  · rw [hrecent]
    exact h.bounded
  · rw [hrecent]
    exact h.distinct
  · rw [hseen, hrecent]
    exact h.keys

/-- The window is the end of the log, with distinct keys, and the filter knows exactly these. -/
structure ExactWindow (s : Session) : Prop where
  recent : s.process.recent = (logged s.fs).rtake RECENT_CAP
  distinct : (s.process.recent.map Event.key).Nodup
  keys : s.process.seen = (s.process.recent.map Event.key).toFinset

/-- Opening makes the window the end of the log again. -/
theorem Deduplicated.reopen {fs : FileSystem} {store : Store} (h : Deduplicated fs store) :
    Deduplicated (Store.open fs).1 (Store.open fs).2 ∧
      (Store.open fs).2.recent = (logged (Store.open fs).1).rtake RECENT_CAP := by
  obtain ⟨hnumbered, hlogged⟩ := h.numbered.reopen
  obtain ⟨_, hrecent, hseen⟩ := open_spec fs
  have hlength : ((logged fs).rtake RECENT_CAP).length ≤ RECENT_CAP := h.covered.length_le.trans h.bounded
  refine ⟨⟨hnumbered, ?_, ?_, ?_, ?_, ?_, hseen⟩, ?_⟩
  · rw [hlogged]
    exact h.unambiguous
  · rw [hlogged]
    exact h.spaced
  · rw [hlogged, hrecent]
  · rw [hrecent]
    exact hlength
  · rw [hrecent]
    exact (h.spaced.of_suffix (List.drop_suffix _ _)).nodup hlength
  · rw [hlogged, hrecent]

/-- The calls of the action are the callback's. -/
def Admits : Action → Prop
  | .append c => c.Admitted
  | _ => True

theorem step_deduplicated {s s' : Session} {a : Action} (h : Deduplicated s.fs s.process) (hadmits : Admits a)
    (hstep : step s a = some s') : Deduplicated s'.fs s'.process := by
  have hnumbered := step_numbered h.numbered hstep
  cases a with
  | append c =>
    obtain rfl | ⟨hnew, fs, next_seq, _, rfl, _, hlogged, _⟩ := step_append h.numbered.intact hstep
    · exact h
    · exact h.append hadmits hnew hnumbered hlogged
  | poll max =>
    simp only [step] at hstep
    split at hstep
    · cases hstep
    · cases hstep
      exact h
  | set_ack through =>
    simp only [step, Option.some.injEq] at hstep
    obtain ⟨fs, ack_through, hset, _, hlogged, _⟩ := h.numbered.intact.set_ack through
    rw [hset] at hstep
    subst hstep
    exact h.unmoved hnumbered (hlogged ▸ List.suffix_rfl) rfl rfl
  | compact =>
    obtain ⟨fs, log, hcompact, _, _, hcases⟩ := h.numbered.intact.compact
    simp only [step, hcompact, Option.some.injEq] at hstep
    subst hstep
    refine h.unmoved hnumbered ?_ rfl rfl
    obtain ⟨hsame, _⟩ | ⟨_, hfiltered⟩ := hcases
    · exact hsame ▸ List.suffix_rfl
    · change logged fs <:+ logged s.fs
      rw [hfiltered]
      exact h.numbered.filter_suffix _
  | reopen =>
    simp only [step, Option.some.injEq] at hstep
    subst hstep
    exact h.reopen.1

/-- As long as nothing but appends follows an opening, the window stays the end of the log. -/
theorem step_window {s s' : Session} {c : Call} (h : Deduplicated s.fs s.process)
    (hrecent : s.process.recent = (logged s.fs).rtake RECENT_CAP) (hstep : step s (.append c) = some s') :
    s'.process.recent = (logged s'.fs).rtake RECENT_CAP := by
  obtain rfl | ⟨_, fs, next_seq, _, rfl, _, hlogged, _⟩ := step_append h.numbered.intact hstep
  · exact hrecent
  · change push_recent s.process.recent (s.process.event c) = (logged fs).rtake RECENT_CAP
    rw [hrecent, push_recent_rtake, hlogged]

/-- An append answers that it is a duplicate exactly where the window has its key. -/
theorem suppressed_iff (s : Session) (c : Call) :
    (s.process.call s.fs c none).2.2 = .ok none ↔ c.key ∈ s.process.seen := by
  constructor
  · intro hnone
    exact seen_of_suppressed (Prod.ext rfl (Prod.ext rfl hnone))
  · intro hseen
    rw [call_of_seen hseen]

/-- After an opening and any appends, the window is exactly the end of the log, and an
append is suppressed exactly if one of the last events of the log has its video, timestamp
and kind. -/
theorem duplicates_within_window {actions : List Action} {calls : List Call} {s : Session}
    (hactions : ∀ a ∈ actions, Admits a) (hcalls : ∀ c ∈ calls, c.Admitted)
    (hrun : machine.Run step .init (actions ++ .reopen :: calls.map .append) s) :
    ExactWindow s ∧ ∀ c : Call, c.Admitted →
      ((s.process.call s.fs c none).2.2 = .ok none ↔ ∃ e ∈ (logged s.fs).rtake RECENT_CAP, c.Repeats e) := by
  obtain ⟨written, hwritten, hrest⟩ := machine.run_append.mp hrun
  obtain ⟨opened, hopen, happends⟩ := machine.run_cons.mp hrest
  have hdedup := hwritten.invariant_along (fun s => Deduplicated s.fs s.process) (P := fun _ a => Admits a)
    (fun _ _ _ => step_deduplicated) (.of_forall (fun a ha _ => hactions a ha) _) .init
  have hopened : Deduplicated opened.fs opened.process ∧
      opened.process.recent = (logged opened.fs).rtake RECENT_CAP := by
    simp only [step, Option.some.injEq] at hopen
    exact hopen ▸ hdedup.reopen
  obtain ⟨h, hrecent⟩ := happends.invariant_along (P := fun _ a => ∃ c : Call, c.Admitted ∧ a = .append c)
    (fun s => Deduplicated s.fs s.process ∧ s.process.recent = (logged s.fs).rtake RECENT_CAP)
    (by
      rintro s a s' ⟨h, hrecent⟩ ⟨c, hc, rfl⟩ hstep
      exact ⟨step_deduplicated (a := .append c) h hc hstep, step_window h hrecent hstep⟩)
    (.of_forall (fun a ha _ => by
      obtain ⟨c, hc, rfl⟩ := List.mem_map.mp ha
      exact ⟨c, hcalls c hc, rfl⟩) _) hopened
  refine ⟨⟨hrecent, h.distinct, h.keys⟩, fun c hc => ?_⟩
  rw [suppressed_iff, h.keys, List.mem_toFinset, List.mem_map, hrecent]
  have hmem : ∀ e ∈ (logged s.fs).rtake RECENT_CAP, e.Unambiguous := fun e he =>
    h.unambiguous e ((List.drop_suffix _ _).subset he)
  exact exists_congr fun e => and_congr_right fun he => hc.key_eq_iff (hmem e he)

theorem duplicates_within_window_sample :
    ∃ s, machine.Run step .init ([.append .sample] ++ .reopen :: [Call.sample].map .append) s ∧
      (s.process.call s.fs .sample none).2.2 = .ok none := by
  have hsample : Call.sample.Admitted := ⟨by decide, Or.inl rfl⟩
  refine ⟨_, rfl, ((@duplicates_within_window [.append .sample] [.sample] _ ?_ ?_ rfl).2 .sample hsample).mpr ?_⟩
  · exact List.forall_mem_singleton.mpr hsample
  · exact List.forall_mem_singleton.mpr hsample
  · exact ⟨_, List.mem_cons_self, rfl, rfl, rfl⟩

end lifecycle

end yt_websub.store
