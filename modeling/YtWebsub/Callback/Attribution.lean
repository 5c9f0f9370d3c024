import YtWebsub.Callback.Notification

open rust rust.utf8 rust.text rust.num rust.fs
open yt_websub.resolve yt_websub.util yt_websub.store yt_websub.subs

namespace yt_websub.callback.attribution

/-- A POST to the callback, and the registry that its path token is looked up in. -/
structure Post where
  reg : Registry
  token : Text
  req : Request

/-- The store, the POSTs so far and everything that polls have returned. -/
structure Session where
  fs : FileSystem
  process : Store
  posts : List Post
  returned : List Event

def Session.init : Session where
  fs := (Store.open .empty).1
  process := (Store.open .empty).2
  posts := []
  returned := []

/-- The registry may change in any way between two POSTs; the entries of one are appended
at the given times. -/
inductive Action where
  | post (post : Post) (now : Nat → U64)
  | poll (after : U64) (max : Nat)
  | set_ack (through : U64)
  | compact
  | reopen

def step (hmac : Bytes → Bytes → Bytes) (s : Session) : Action → Option Session
  | .post post now =>
    let posts := s.posts ++ [post]
    match post.reg.by_token post.token with
    | none => some { s with posts }
    | some sub =>
      match handle_notify hmac s.fs s.process sub post.req fun i => ⟨now i, none⟩ with
      | (fs, process, answer) => if answer.status.isSome then some { s with fs, process, posts } else none
  | .poll after max =>
    -- A poll whose cursor has no successor returns nothing.
    some { s with returned := s.returned ++ (s.process.events_after s.fs after max).getD [] }
  | .set_ack through =>
    let (fs, process) := s.process.set_ack s.fs through none
    some { s with fs, process }
  | .compact =>
    match s.process.maybe_compact s.fs none with
    | (fs, process, true) => some { s with fs, process }
    | _ => none
  | .reopen =>
    let (fs, process) := Store.open s.fs
    some { s with fs, process }

/-- The signature header holds the HMAC of the body, as far as it is read, under the
secret of the subscription. -/
def Signed (hmac : Bytes → Bytes → Bytes) (sub : Sub) (req : Request) : Prop :=
  ∃ header hex, req.signature = some header ∧ strip_start "sha1=".toList (trim header) = some hex ∧
    hex_decode (trim hex) = some (hmac (encode sub.secret) (req.received.take MAX_BODY))

/-- The event says what the entry says, under the channel of the subscription. -/
structure Carries (sub : Sub) (entry : atom.Entry) (e : Event) : Prop where
  channel_id : e.channel_id = sub.channel_id
  kind : e.kind = entry.kind
  video_id : e.video_id = entry.video_id
  ts : e.ts = entry.ts
  title : e.title = entry.title

/-- The event records this entry of this POST, which was accepted. -/
def Records (hmac : Bytes → Bytes → Bytes) (posts : List Post) (e : Event) (source : Nat × Nat) : Prop :=
  ∃ post sub entry, posts[source.1]? = some post ∧ post.reg.by_token post.token = some sub ∧
    Signed hmac sub post.req ∧ (atom.parse (lossy post.req.body))[source.2]? = some entry ∧ Carries sub entry e

theorem authenticated_iff {hmac : Bytes → Bytes → Bytes} {sub : Sub} {req : Request} :
    authenticated hmac sub req = true ↔ Signed hmac sub req := by
  constructor
  · intro h
    unfold authenticated at h
    split at h
    · rename_i header hheader
      unfold sig.verify at h
      split at h
      · cases h
      · rename_i hex hhex
        split at h
        · cases h
        · rename_i expected hexpected
          exact ⟨header, hex, hheader, hhex, hexpected.trans (congrArg some (of_decide_eq_true h).symm)⟩
    · cases h
  · rintro ⟨header, hex, hheader, hhex, hexpected⟩
    unfold authenticated sig.verify
    simp only [hheader, hhex, hexpected]
    exact decide_eq_true rfl

/-- Later POSTs do not change what an earlier one says. -/
theorem Records.append {hmac : Bytes → Bytes → Bytes} {posts : List Post} {e : Event} {source : Nat × Nat}
    (h : Records hmac posts e source) (post : Post) : Records hmac (posts ++ [post]) e source := by
  obtain ⟨first, sub, entry, hpost, hrest⟩ := h
  refine ⟨first, sub, entry, ?_, hrest⟩
  rw [List.getElem?_append_left (List.getElem?_eq_some_iff.mp hpost).1, hpost]

theorem Records.lt_length {hmac : Bytes → Bytes → Bytes} {posts : List Post} {e : Event} {source : Nat × Nat}
    (h : Records hmac posts e source) : source.1 < posts.length := by
  obtain ⟨post, _, _, hpost, _⟩ := h
  exact (List.getElem?_eq_some_iff.mp hpost).1

/-- Everything in the log and in the window was written for one of these sources. -/
structure Kept (fs : FileSystem) (store : Store) (rows : List (Event × Nat × Nat)) : Prop
    extends Intact fs store where
  log : logged fs ⊆ rows.map Prod.fst
  window : store.recent ⊆ rows.map Prod.fst

theorem Kept.init : Kept Session.init.fs Session.init.process [] where
  toIntact := .init
  log := List.Subset.refl []
  window := List.Subset.refl []

/-- An append is suppressed, or writes its event. -/
theorem Kept.call {fs fs' : FileSystem} {store store' : Store} {rows : List (Event × Nat × Nat)}
    (h : Kept fs store rows) {c : Call} {result : AppendResult}
    (hcall : store.call fs c none = (fs', store', result)) (hlive : result ≠ .panic) (source : Nat × Nat) :
    Kept fs' store' rows ∨ Kept fs' store' (rows ++ [(store.event c, source)]) := by
  obtain ⟨_, rfl, rfl, _⟩ | ⟨_, next_seq, _, rfl, _, hintact, hlogged, _⟩ := h.toIntact.call hcall hlive
  · exact Or.inl h
  have hgrow : ∀ es : List Event, es ⊆ rows.map Prod.fst →
      es ++ [store.event c] ⊆ (rows ++ [(store.event c, source)]).map Prod.fst := by
    intro es hes
    rw [List.map_append]
    exact List.append_subset.mpr ⟨fun e he => List.mem_append_left _ (hes he), List.subset_append_right _ _⟩
  refine Or.inr ⟨hintact, ?_, List.Subset.trans (push_recent_subset _ _) (hgrow _ h.window)⟩
  rw [hlogged]
  exact hgrow _ h.log

/-- The sources of a run in which `posts` were made: each is named once, by an event that
records it. -/
structure Sourced (hmac : Bytes → Bytes → Bytes) (posts : List Post) (rows : List (Event × Nat × Nat)) : Prop where
  distinct : (rows.map Prod.snd).Nodup
  records : ∀ row ∈ rows, Records hmac posts row.1 row.2

/-- The loop over the rest of a POST's entries only uses sources of its own. -/
theorem Kept.append_entries {hmac : Bytes → Bytes → Bytes} {fs fs' : FileSystem} {store store' : Store}
    {rows : List (Event × Nat × Nat)} (h : Kept fs store rows) {posts : List Post}
    (hsourced : Sourced hmac posts rows) {sub : Sub} {now : Nat → U64} {p i : Nat} {entries : List atom.Entry}
    (hbefore : ∀ row ∈ rows, row.2.1 = p → row.2.2 < i)
    (hentries : ∀ (k : Nat) (entry : atom.Entry) (e : Event), entries[k]? = some entry → Carries sub entry e →
      Records hmac posts e (p, i + k))
    {results : List AppendResult}
    (hloop : callback.append_entries sub (fun i => ⟨now i, none⟩) i fs store entries = (fs', store', results))
    (hlive : .panic ∉ results) :
    ∃ rows', rows <+: rows' ∧ Kept fs' store' rows' ∧ Sourced hmac posts rows' := by
  induction entries generalizing i fs store rows results with
  | nil =>
    simp only [callback.append_entries, Prod.mk.injEq] at hloop
    obtain ⟨rfl, rfl, _⟩ := hloop
    exact ⟨rows, List.prefix_rfl, h, hsourced⟩
  | cons entry entries ih =>
    obtain ⟨mid, store_mid, result, rest, hcall, hrest, rfl⟩ := notification.append_entries_cons hloop hlive
    obtain ⟨hresult, hrestlive⟩ := not_or.mp (List.mem_cons.not.mp hlive)
    have hlater : ∀ (k : Nat) (entry : atom.Entry) (e : Event), entries[k]? = some entry → Carries sub entry e →
        Records hmac posts e (p, i + 1 + k) := by
      intro k entry e hentry hcarries
      rw [Nat.add_assoc, Nat.add_comm 1 k]
      exact hentries (k + 1) entry e hentry hcarries
    obtain hmid | hmid := h.call hcall (Ne.symm hresult) (p, i)
    · exact ih hmid hsourced (fun row hrow hp => (hbefore row hrow hp).trans (Nat.lt_succ_self i)) hlater hrest
        hrestlive
    · have hnew : (p, i) ∉ rows.map Prod.snd := by
        intro hmem
        obtain ⟨row, hrow, heq⟩ := List.mem_map.mp hmem
        have hlt := hbefore row hrow (congrArg Prod.fst heq)
        rw [congrArg Prod.snd heq] at hlt
        exact lt_irrefl i hlt
      have hsourced' : Sourced hmac posts
          (rows ++ [(store.event (notification.appendCall sub (now i) entry), (p, i))]) := by
        refine ⟨?_, fun row hrow => ?_⟩
        · rw [List.map_append, List.nodup_append']
          refine ⟨hsourced.distinct, List.nodup_singleton _, ?_⟩
          rw [List.map_singleton, List.disjoint_singleton]
          exact hnew
        · obtain hold | hrow := List.mem_append.mp hrow
          · exact hsourced.records row hold
          · rw [List.mem_singleton.mp hrow]
            exact hentries 0 entry _ rfl ⟨rfl, rfl, rfl, rfl, rfl⟩
      have hbefore' : ∀ row ∈ rows ++ [(store.event (notification.appendCall sub (now i) entry), (p, i))],
          row.2.1 = p → row.2.2 < i + 1 := by
        intro row hrow hp
        obtain hold | hrow := List.mem_append.mp hrow
        · exact (hbefore row hold hp).trans (Nat.lt_succ_self i)
        · rw [List.mem_singleton.mp hrow]
          exact Nat.lt_succ_self i
      obtain ⟨rows', hgrown, hkept⟩ := ih hmid hsourced' hbefore' hlater hrest hrestlive
      exact ⟨rows', (List.prefix_append _ _).trans hgrown, hkept⟩

theorem Kept.set_ack {fs : FileSystem} {store : Store} {rows : List (Event × Nat × Nat)} (h : Kept fs store rows)
    (through : U64) : Kept (store.set_ack fs through none).1 (store.set_ack fs through none).2 rows := by
  obtain ⟨fs', ack_through, hset, hintact, hlogged, _⟩ := h.toIntact.set_ack through
  rw [hset]
  refine ⟨hintact, ?_, h.window⟩
  rw [hlogged]
  exact h.log

theorem Kept.compact {fs fs' : FileSystem} {store store' : Store} {rows : List (Event × Nat × Nat)}
    (h : Kept fs store rows) (hcompact : store.maybe_compact fs none = (fs', store', true)) :
    Kept fs' store' rows := by
  obtain ⟨fs_end, log, heq, hintact, _, hcases⟩ := h.toIntact.compact
  rw [hcompact, Prod.mk.injEq, Prod.mk.injEq] at heq
  obtain ⟨rfl, rfl, _⟩ := heq
  have hfewer : logged fs' ⊆ logged fs := by
    obtain ⟨hsame, _⟩ | ⟨_, hfiltered⟩ := hcases
    · exact hsame ▸ List.Subset.refl _
    · rw [hfiltered]
      exact List.filter_subset_self _
  exact ⟨hintact, List.Subset.trans hfewer h.log, h.window⟩

theorem Kept.reopen {fs : FileSystem} {store : Store} {rows : List (Event × Nat × Nat)} (h : Kept fs store rows) :
    Kept (Store.open fs).1 (Store.open fs).2 rows := by
  obtain ⟨hintact, hlogged⟩ := h.toIntact.reopen
  refine ⟨hintact, ?_, ?_⟩
  · rw [hlogged]
    exact h.log
  · rw [(open_spec fs).2.1]
    exact List.Subset.trans (List.drop_subset _ _) h.log

/-- A poll returns nothing that is not in the log or in the window. -/
theorem Kept.poll {fs : FileSystem} {store : Store} {rows : List (Event × Nat × Nat)} (h : Kept fs store rows)
    (after : U64) (max : Nat) : (store.events_after fs after max).getD [] ⊆ rows.map Prod.fst := by
  intro e he
  cases hpoll : store.events_after fs after max with
  | none =>
    rw [hpoll] at he
    cases he
  | some events =>
    rw [hpoll] at he
    have hmem := (mem_source_of_mem_events_after hpoll he).1
    unfold Store.source at hmem
    split at hmem
    · exact h.window hmem
    · exact h.log hmem

/-- Every event written or returned has a source. -/
def Attributed (hmac : Bytes → Bytes → Bytes) (s : Session) : Prop :=
  ∃ rows, Kept s.fs s.process rows ∧ Sourced hmac s.posts rows ∧ s.returned ⊆ rows.map Prod.fst

theorem step_attributed {hmac : Bytes → Bytes → Bytes} {s s' : Session} {a : Action} (h : Attributed hmac s)
    (hstep : step hmac s a = some s') : Attributed hmac s' := by
  obtain ⟨rows, hkept, hsourced, hreturned⟩ := h
  cases a with
  | post post now =>
    have hposts : Sourced hmac (s.posts ++ [post]) rows :=
      ⟨hsourced.distinct, fun row hrow => (hsourced.records row hrow).append post⟩
    cases hfound : post.reg.by_token post.token with
    | none =>
      simp only [step, hfound, Option.some.injEq] at hstep
      subst hstep
      exact ⟨rows, hkept, hposts, hreturned⟩
    | some sub =>
      obtain ⟨fs, process, answer, hnotify⟩ : ∃ fs process answer,
          handle_notify hmac s.fs s.process sub post.req (fun i => ⟨now i, none⟩) = (fs, process, answer) :=
        ⟨_, _, _, rfl⟩
      simp only [step, hfound, hnotify] at hstep
      split at hstep
      · rename_i hlive
        rw [Option.some.injEq] at hstep
        subst hstep
        by_cases hauth : authenticated hmac sub post.req = true
        · obtain ⟨hloop, hpanic⟩ := notification.handle_notify_of_authenticated hauth hnotify hlive
          obtain ⟨rows', ⟨new, rfl⟩, hkept', hsourced'⟩ := hkept.append_entries hposts (p := s.posts.length)
            (fun row hrow hp => absurd (hsourced.records row hrow).lt_length (by omega))
            (fun k entry e hentry hcarries => by
              refine ⟨post, sub, entry, List.getElem?_concat_length, hfound, authenticated_iff.mp hauth, ?_, hcarries⟩
              rw [Nat.zero_add]
              exact hentry) hloop hpanic
          refine ⟨rows ++ new, hkept', hsourced', fun e he => ?_⟩
          rw [List.map_append]
          exact List.mem_append_left _ (hreturned he)
        · simp only [handle_notify, hauth, Bool.false_eq_true, if_false, Prod.mk.injEq] at hnotify
          obtain ⟨rfl, rfl, _⟩ := hnotify
          exact ⟨rows, hkept, hposts, hreturned⟩
      · cases hstep
  | poll after max =>
    simp only [step, Option.some.injEq] at hstep
    subst hstep
    exact ⟨rows, hkept, hsourced, List.append_subset.mpr ⟨hreturned, hkept.poll after max⟩⟩
  | set_ack through =>
    simp only [step, Option.some.injEq] at hstep
    subst hstep
    exact ⟨rows, hkept.set_ack through, hsourced, hreturned⟩
  | compact =>
    simp only [step] at hstep
    split at hstep
    · rename_i fs process hcompact
      rw [Option.some.injEq] at hstep
      subst hstep
      exact ⟨rows, hkept.compact hcompact, hsourced, hreturned⟩
    · cases hstep
  | reopen =>
    simp only [step, Option.some.injEq] at hstep
    subst hstep
    exact ⟨rows, hkept.reopen, hsourced, hreturned⟩

/-- Where no source is named twice, every event can be given one of its own. -/
theorem exists_injOn {α β : Type} [Nonempty β] {rows : List (α × β)} (h : (rows.map Prod.snd).Nodup) :
    ∃ source : α → β, Set.InjOn source {a | a ∈ rows.map Prod.fst} ∧
      ∀ a ∈ rows.map Prod.fst, (a, source a) ∈ rows := by
  have hsource : ∀ a, ∃ b, a ∈ rows.map Prod.fst → (a, b) ∈ rows := by
    intro a
    by_cases ha : a ∈ rows.map Prod.fst
    · obtain ⟨⟨_, b⟩, hrow, rfl⟩ := List.mem_map.mp ha
      exact ⟨b, fun _ => hrow⟩
    · exact ⟨Classical.arbitrary β, fun hmem => absurd hmem ha⟩
  choose source hsource using hsource
  refine ⟨source, fun a ha a' ha' heq => ?_, hsource⟩
  exact congrArg Prod.fst (List.inj_on_of_nodup_map h (hsource a ha) (hsource a' ha') heq)

/-- Every event that a poll has ever returned is attributed to an entry of an accepted
POST: it says what the entry says, under the channel of the subscription whose secret
signed the body, and no two events are attributed to one entry. -/
theorem returned_attributed {hmac : Bytes → Bytes → Bytes} {actions : List Action} {s : Session}
    (hrun : machine.Run (step hmac) .init actions s) :
    ∃ source : Event → Nat × Nat, Set.InjOn source {e | e ∈ s.returned} ∧
      ∀ e ∈ s.returned, Records hmac s.posts e (source e) := by
  obtain ⟨rows, _, hsourced, hreturned⟩ := hrun.invariant (Attributed hmac) (fun _ _ _ => step_attributed)
    ⟨[], .init, ⟨List.nodup_nil, by simp⟩, List.Subset.refl []⟩
  obtain ⟨source, hinjective, hsource⟩ := exists_injOn hsourced.distinct
  exact ⟨source, hinjective.mono fun e he => hreturned he,
    fun e he => hsourced.records (e, source e) (hsource e (hreturned he))⟩

/-- A signed notice and a forged one, a restart, and a poll. -/
def noticeRun : List Action :=
  let reg := Registry.insert .empty notification.subscribed
  [.post ⟨reg, notification.subscribed.val.token, notification.deletionNotice⟩ fun _ => 1,
    .post ⟨reg, notification.subscribed.val.token, { notification.deletionNotice with headers := [] }⟩ fun _ => 2,
    .reopen, .poll 0 500]

theorem returned_attributed_notice :
    ∃ s, machine.Run (step notification.noticeDigest) .init noticeRun s ∧ s.returned.length = 1 ∧
      ∀ e ∈ s.returned, ∃ source, Records notification.noticeDigest s.posts e source := by
  obtain ⟨s, hrun, hlength⟩ := machine.exists_run (step notification.noticeDigest)
    (show (noticeRun.foldlM (step notification.noticeDigest) .init).any (fun s =>
      decide (s.returned.length = 1)) = true by decide +kernel)
  obtain ⟨source, _, hrecords⟩ := returned_attributed hrun
  exact ⟨s, hrun, of_decide_eq_true hlength, fun e he => ⟨source e, hrecords e he⟩⟩

end yt_websub.callback.attribution
