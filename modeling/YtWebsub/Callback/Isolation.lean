import YtWebsub.Callback.Notification
import YtWebsub.Store.Restart

open rust rust.utf8 rust.text rust.num rust.fs
open yt_websub.resolve yt_websub.store yt_websub.subs
open paging

namespace yt_websub.callback.notification

/-- An event of the subscription's own channel that the entry repeats is on record. -/
def OwnOnRecord (sub : Sub) (entry : atom.Entry) (written : List Event) : Prop :=
  ∃ e ∈ written, e.channel_id = sub.channel_id ∧ Repeats entry e

/-- An entry is suppressed as a duplicate only where it repeats an event of the
subscription's own channel, logged before its turn. -/
def SuppressedByOwn (hmac : Bytes → Bytes → Bytes) (s : Session) : Action → Prop
  | .notify sub req env =>
    let results := (handle_notify hmac s.fs s.process sub req env).2.2.results
    ∀ (i : Nat) (entry : atom.Entry), req.entries[i]? = some entry → results[i]? = some (.ok none) →
      OwnOnRecord sub entry (s.written ++ recorded sub env 0 (req.entries.take i) (results.take i))
  | _ => True

/-- When the append of an entry has its turn, no event of another channel in the window
has the entry's video, timestamp and kind, unless one of the own channel that has them
was logged before. -/
def Unshadowed (sub : Sub) (env : Nat → AppendEnv) :
    Nat → FileSystem → Store → List Event → List atom.Entry → Prop
  | _, _, _, _, [] => True
  | i, fs, store, written, entry :: entries =>
    let (fs', store', result) := store.call fs (appendCall sub (env i).now entry) (env i).fault
    ((∃ e ∈ store.recent, e.channel_id ≠ sub.channel_id ∧ Repeats entry e) → OwnOnRecord sub entry written) ∧
      Unshadowed sub env (i + 1) fs' store' (written ++ recorded sub env i [entry] [result]) entries

def NotifiesUnshadowed (hmac : Bytes → Bytes → Bytes) (s : Session) : Action → Prop
  | .notify sub req env =>
    authenticated hmac sub req = true → Unshadowed sub env 0 s.fs s.process s.written req.entries
  | _ => True

/-- No append of the step meets an I/O error. -/
def Action.faultless : Action → Prop
  | .notify _ _ env => ∀ i, (env i).fault = none
  | _ => True

instance Repeats.decidable (entry : atom.Entry) (e : Event) : Decidable (Repeats entry e) :=
  inferInstanceAs (Decidable (_ ∧ _ ∧ _))

instance OwnOnRecord.decidable (sub : Sub) (entry : atom.Entry) (written : List Event) :
    Decidable (OwnOnRecord sub entry written) :=
  inferInstanceAs (Decidable (∃ e ∈ written, _))

instance Unshadowed.decidable (sub : Sub) (env : Nat → AppendEnv) :
    ∀ i fs store written entries, Decidable (Unshadowed sub env i fs store written entries)
  | _, _, _, _, [] => isTrue trivial
  | i, fs, store, written, entry :: entries =>
    match hcall : store.call fs (appendCall sub (env i).now entry) (env i).fault with
    | (fs', store', result) =>
      have := Unshadowed.decidable sub env (i + 1) fs' store' (written ++ recorded sub env i [entry] [result]) entries
      decidable_of_iff
        (((∃ e ∈ store.recent, e.channel_id ≠ sub.channel_id ∧ Repeats entry e) → OwnOnRecord sub entry written) ∧
          Unshadowed sub env (i + 1) fs' store' (written ++ recorded sub env i [entry] [result]) entries)
        (by rw [Unshadowed, hcall])

instance NotifiesUnshadowed.decidable (hmac : Bytes → Bytes → Bytes) :
    ∀ s a, Decidable (NotifiesUnshadowed hmac s a)
  | s, .notify sub req env =>
    inferInstanceAs (Decidable (authenticated hmac sub req = true →
      Unshadowed sub env 0 s.fs s.process s.written req.entries))
  | _, .set_ack _ | _, .compact | _, .reopen => isTrue trivial

/-- Without an event of another channel in its way, a suppressed entry repeats one of its
own channel. -/
theorem Remembers.own_of_unshadowed {fs fs' : FileSystem} {store store' : Store} {written : List Event}
    (h : Remembers fs store written) (sub : ResolvedSub) {env : Nat → AppendEnv} {i : Nat}
    {entries : List atom.Entry} {results : List AppendResult}
    (hentries : ∀ entry ∈ entries, atom.is_video_id entry.video_id = true ∧ atom.isKind entry.kind)
    (hloop : callback.append_entries sub env i fs store entries = (fs', store', results)) (hlive : .panic ∉ results)
    (hclear : Unshadowed sub env i fs store written entries) (k : Nat) {entry : atom.Entry}
    (hentry : entries[k]? = some entry) (hresult : results[k]? = some (.ok none)) :
    OwnOnRecord sub entry (written ++ recorded sub env i (entries.take k) (results.take k)) := by
  induction entries generalizing i fs store written results k with
  | nil => simp at hentry
  | cons first entries ih =>
    obtain ⟨mid, store_mid, result, rest, hcall, hrest, rfl⟩ := append_entries_cons hloop hlive
    obtain ⟨hresultlive, hrestlive⟩ := not_or.mp (List.mem_cons.not.mp hlive)
    obtain ⟨hfirst, htail⟩ := List.forall_mem_cons.mp hentries
    rw [Unshadowed, hcall] at hclear
    obtain ⟨hturn, hclear⟩ := hclear
    cases k with
    | zero =>
      simp only [List.getElem?_cons_zero, Option.some.injEq] at hentry hresult
      subst hentry hresult
      obtain ⟨e, he, hrepeats⟩ := h.window_of_seen hfirst (seen_of_suppressed hcall)
      simp only [List.take_zero, recorded, List.append_nil]
      by_cases hown : e.channel_id = sub.val.channel_id
      · exact ⟨e, h.window e he, hown, hrepeats⟩
      · exact hturn ⟨e, he, hown, hrepeats⟩
    | succ k =>
      have hmid := h.append_of_live sub hfirst hcall (Ne.symm hresultlive)
      rw [List.take_succ_cons, List.take_succ_cons, recorded_cons, ← List.append_assoc]
      exact ih hmid htail hrest hrestlive hclear k hentry hresult

/-- The log and the window are ends of one history numbered in order, and the filter
knows exactly the keys of the window. -/
structure Exact (fs : FileSystem) (store : Store) : Prop extends Intact fs store where
  history : ∃ es, logged fs <:+ es ∧ store.recent = es.rtake RECENT_CAP ∧ Increasing Event.seq es ∧
    ∀ e ∈ es, e.seq < store.next_seq
  seen : store.seen = (keys store.recent).toFinset
  distinct : (keys store.recent).Nodup

theorem Exact.init : Exact Session.init.fs Session.init.process where
  toIntact := .init
  history := ⟨[], List.suffix_rfl, rfl, List.Pairwise.nil, by simp⟩
  seen := rfl
  distinct := List.nodup_nil

/-- An append without an I/O error adds its event to the history, or is suppressed. -/
theorem Exact.call {fs fs' : FileSystem} {store store' : Store} (h : Exact fs store) {c : Call}
    {result : AppendResult} (hcall : store.call fs c none = (fs', store', result)) (hlive : result ≠ .panic) :
    Exact fs' store' := by
  obtain ⟨_, rfl, rfl, _⟩ | ⟨hnew, next_seq, hadd, rfl, _, hintact, hlogged, _⟩ := h.toIntact.call hcall hlive
  · exact h
  obtain ⟨es, hkept, hwindow, hincreasing, hbelow⟩ := h.history
  have hnext : store.next_seq < next_seq := by
    rw [Fin.lt_def, checked_add_eq_some.mp hadd]
    omega
  rw [h.seen, List.mem_toFinset, ← event_key store] at hnew
  obtain ⟨hseen, hdistinct⟩ := push_seen_keys h.distinct hnew
  refine ⟨hintact, ⟨es ++ [store.event c], ?_, ?_, hincreasing.append_singleton hbelow, ?_⟩, ?_, hdistinct⟩
  · rw [hlogged]
    exact lifecycle.suffix_append_right hkept _
  · rw [← push_recent_rtake, ← hwindow]
    rfl
  · intro e he
    obtain he | he := List.mem_append.mp he
    · exact (hbelow e he).trans hnext
    · rw [List.mem_singleton.mp he]
      exact hnext
  · rw [← h.seen] at hseen
    exact hseen

theorem Exact.set_ack {fs : FileSystem} {store : Store} (h : Exact fs store) (through : U64) :
    Exact (store.set_ack fs through none).1 (store.set_ack fs through none).2 := by
  obtain ⟨fs', ack_through, hset, hintact, hlogged, _⟩ := h.toIntact.set_ack through
  rw [hset]
  refine ⟨hintact, ?_, h.seen, h.distinct⟩
  rw [hlogged]
  exact h.history

theorem Exact.compact {fs fs' : FileSystem} {store store' : Store} (h : Exact fs store)
    (hcompact : store.maybe_compact fs none = (fs', store', true)) : Exact fs' store' := by
  obtain ⟨fs_end, log, heq, hintact, _, hcases⟩ := h.toIntact.compact
  rw [hcompact, Prod.mk.injEq, Prod.mk.injEq] at heq
  obtain ⟨rfl, rfl, _⟩ := heq
  obtain ⟨es, hkept, hwindow, hincreasing, hbelow⟩ := h.history
  have hend : logged fs' <:+ logged fs := by
    obtain ⟨hsame, _⟩ | ⟨_, hfiltered⟩ := hcases
    · rw [hsame]
    · rw [hfiltered]
      exact (hincreasing.of_suffix hkept).filter_suffix _
  exact ⟨hintact, ⟨es, hend.trans hkept, hwindow, hincreasing, hbelow⟩, h.seen, h.distinct⟩

theorem rtake_suffix {α : Type} {l l' : List α} (h : l <:+ l') (n : Nat) : l.rtake n <:+ l'.rtake n := by
  rw [List.rtake_eq_reverse_take_reverse, List.rtake_eq_reverse_take_reverse, List.reverse_suffix]
  exact (List.reverse_prefix.mpr h).take n

theorem Exact.reopen {fs : FileSystem} {store : Store} (h : Exact fs store) :
    Exact (Store.open fs).1 (Store.open fs).2 := by
  obtain ⟨hintact, hlogged⟩ := h.toIntact.reopen
  obtain ⟨hcounter, hwindow, hseen⟩ := open_spec fs
  obtain ⟨es, hkept, hold, hincreasing, hbelow⟩ := h.history
  refine ⟨hintact, ⟨logged fs, ?_, hwindow, hincreasing.of_suffix hkept, fun e he => ?_⟩, hseen, ?_⟩
  · rw [hlogged]
  · rw [hcounter]
    obtain hlt | hmax := lt_or_eq_max_foldl_bump he 1
    · exact hlt
    · rw [hmax]
      have hlt := hbelow e (hkept.subset he)
      have hnext := store.next_seq.isLt
      rw [Fin.lt_def] at hlt ⊢
      simp only [U64.MAX]
      omega
  · rw [hwindow]
    have hdistinct := h.distinct
    rw [hold] at hdistinct
    exact hdistinct.sublist ((rtake_suffix hkept RECENT_CAP).sublist.map _)

theorem Exact.append_entries {fs fs' : FileSystem} {store store' : Store} (h : Exact fs store) (sub : ResolvedSub)
    {env : Nat → AppendEnv} (hfaultless : ∀ i, (env i).fault = none) {i : Nat} {entries : List atom.Entry}
    {results : List AppendResult}
    (hloop : callback.append_entries sub env i fs store entries = (fs', store', results))
    (hlive : .panic ∉ results) : Exact fs' store' := by
  induction entries generalizing i fs store results with
  | nil =>
    simp only [callback.append_entries, Prod.mk.injEq] at hloop
    obtain ⟨rfl, rfl, rfl⟩ := hloop
    exact h
  | cons entry entries ih =>
    obtain ⟨mid, store_mid, result, rest, hcall, hrest, rfl⟩ := append_entries_cons hloop hlive
    obtain ⟨hresultlive, hrestlive⟩ := not_or.mp (List.mem_cons.not.mp hlive)
    rw [hfaultless i] at hcall
    exact ih (h.call hcall (Ne.symm hresultlive)) hrest hrestlive

/-- Where the filter is exact, an event of another channel in the window suppresses the
entry that repeats it: only one of the own channel can excuse that. -/
theorem Exact.unshadowed_of_own {fs fs' : FileSystem} {store store' : Store} {written : List Event}
    (h : Exact fs store) (sub : ResolvedSub) {env : Nat → AppendEnv} (hfaultless : ∀ i, (env i).fault = none)
    {i : Nat} {entries : List atom.Entry} {results : List AppendResult}
    (hloop : callback.append_entries sub env i fs store entries = (fs', store', results))
    (hlive : .panic ∉ results)
    (hown : ∀ (k : Nat) (entry : atom.Entry), entries[k]? = some entry → results[k]? = some (.ok none) →
      OwnOnRecord sub entry (written ++ recorded sub env i (entries.take k) (results.take k))) :
    Unshadowed sub env i fs store written entries := by
  induction entries generalizing i fs store written results with
  | nil => trivial
  | cons entry entries ih =>
    obtain ⟨mid, store_mid, result, rest, hcall, hrest, rfl⟩ := append_entries_cons hloop hlive
    obtain ⟨hresultlive, hrestlive⟩ := not_or.mp (List.mem_cons.not.mp hlive)
    rw [Unshadowed, hcall]
    refine ⟨fun ⟨e, he, _, hvideo, hts, hkind⟩ => ?_, ?_⟩
    · have hseen : (store.event (appendCall sub (env i).now entry)).key ∈ store.seen := by
        rw [h.seen, List.mem_toFinset]
        refine List.mem_map.mpr ⟨e, he, ?_⟩
        rw [event_key, Event.key, hvideo, hts, hkind]
        rfl
      have hsuppressed := hcall.symm.trans (call_of_seen hseen (env i).fault)
      simp only [Prod.mk.injEq] at hsuppressed
      have hfirst := hown 0 entry rfl (by rw [hsuppressed.2.2]; rfl)
      simpa [recorded] using hfirst
    · rw [hfaultless i] at hcall
      refine ih (h.call hcall (Ne.symm hresultlive)) hrest hrestlive fun k entry' hentry' hresult' => ?_
      have hlater := hown (k + 1) entry' hentry' hresult'
      rwa [List.take_succ_cons, List.take_succ_cons, recorded_cons, ← List.append_assoc] at hlater

theorem step_exact {hmac : Bytes → Bytes → Bytes} {s s' : Session} {a : Action} (h : Exact s.fs s.process)
    (hfaultless : a.faultless) (hstep : step hmac s a = some s') : Exact s'.fs s'.process := by
  cases a with
  | notify sub req env =>
    obtain ⟨_, results, hloop, hlive, _⟩ | ⟨_, rfl, _⟩ := step_notify hstep
    · exact h.append_entries sub hfaultless hloop hlive
    · exact h
  | set_ack through =>
    simp only [step, Option.some.injEq] at hstep
    subst hstep
    exact h.set_ack through
  | compact =>
    simp only [step] at hstep
    split at hstep
    · rename_i fs process hcompact
      rw [Option.some.injEq] at hstep
      subst hstep
      exact h.compact hcompact
    · cases hstep
  | reopen =>
    simp only [step, Option.some.injEq] at hstep
    subst hstep
    exact h.reopen

/-- In every run whose notifications never meet an event of another channel in their
way, every suppressed entry repeats an event of its own channel. Without I/O errors
these are the only such runs. -/
theorem suppressed_only_by_own {hmac : Bytes → Bytes → Bytes} {actions : List Action} {s : Session}
    (hrun : machine.Run (step hmac) .init actions s) :
    (machine.Along (step hmac) (NotifiesUnshadowed hmac) .init actions →
        machine.Along (step hmac) (SuppressedByOwn hmac) .init actions) ∧
      ((∀ a ∈ actions, a.faultless) → machine.Along (step hmac) (SuppressedByOwn hmac) .init actions →
        machine.Along (step hmac) (NotifiesUnshadowed hmac) .init actions) := by
  constructor
  · refine hrun.along_imp (fun s => Remembers s.fs s.process s.written)
      (fun _ _ _ h _ => step_remembers h) (fun s a s' h hstep hclear => ?_) .init
    cases a with
    | notify sub req env =>
      intro i entry hentry hresult
      obtain ⟨hauth, results, hloop, hlive, hanswer, _⟩ | ⟨_, _, hanswer⟩ := step_notify hstep
      · rw [hanswer] at hresult ⊢
        exact h.own_of_unshadowed sub (fun entry hentry => atom.parse_valid hentry) hloop hlive (hclear hauth) i
          hentry hresult
      · rw [hanswer] at hresult
        simp at hresult
    | set_ack through => trivial
    | compact => trivial
    | reopen => trivial
  · intro hfaultless hown
    have hboth := machine.Along.and (.of_forall (P := fun _ a => Action.faultless a)
      (fun a ha _ => hfaultless a ha) _) hown
    refine hrun.along_imp (fun s => Exact s.fs s.process) (fun _ _ _ h hP => step_exact h hP.1)
      (fun s a s' h hstep hP => ?_) .init hboth
    cases a with
    | notify sub req env =>
      intro hauth
      obtain ⟨_, results, hloop, hlive, hanswer, _⟩ | ⟨hdropped, _⟩ := step_notify hstep
      · refine h.unshadowed_of_own sub hP.1 hloop hlive fun k entry hentry hresult => ?_
        rw [← hanswer] at hresult ⊢
        exact hP.2 k entry hentry hresult
      · rw [hauth] at hdropped
        cases hdropped
    | set_ack through => trivial
    | compact => trivial
    | reopen => trivial

/-- The hub repeats a notice after a restart. -/
def repeatedRun : List Action :=
  [.notify subscribed deletionNotice fun _ => ⟨1, none⟩, .reopen,
    .notify subscribed deletionNotice fun _ => ⟨2, none⟩]

theorem suppressed_only_by_own_repeated :
    ∃ s, machine.Run (step noticeDigest) .init repeatedRun s ∧
      machine.Along (step noticeDigest) (SuppressedByOwn noticeDigest) .init repeatedRun := by
  obtain ⟨s, hrun, _⟩ := machine.exists_run (step noticeDigest) (p := fun _ => true)
    (show (repeatedRun.foldlM (step noticeDigest) .init).any (fun _ => true) = true by decide +kernel)
  exact ⟨s, hrun, (suppressed_only_by_own hrun).1 (by decide +kernel)⟩

/-- Another subscription, with a secret of its own. -/
def other : ResolvedSub :=
  ⟨Sub.new "UCbcdefghijklmnopqrstuvw".toList "ffeeddccbbaa99887766554433221100".toList
    "89abcdef0123456789abcdef0123456789abcdef".toList, by decide⟩

/-- The notice that the same video is gone, signed for the other subscription. -/
def otherNotice : Request where
  headers := [("X-Hub-Signature".toList, "sha1=0b7f48bb7983f3085d5eebd1aad229847f7630ad".toList)]
  received := deletionNotice.received

/-- What HMAC-SHA1 gives for the two secrets and the notice. -/
def noticeDigests (key _message : Bytes) : Bytes :=
  if key = encode other.val.secret then
    [11, 127, 72, 187, 121, 131, 243, 8, 93, 94, 235, 209, 170, 210, 41, 132, 127, 118, 48, 173]
  else noticeDigest key _message

/-- A notice signed for the first subscription, then one signed for the other. -/
def shadowingRun : List Action :=
  [.notify subscribed deletionNotice fun _ => ⟨1, none⟩, .notify other otherNotice fun _ => ⟨2, none⟩]

/-- The other channel's notice is taken for a duplicate, and no event of it is logged. -/
theorem suppressed_by_other :
    ∃ s, machine.Run (step noticeDigests) .init shadowingRun s ∧
      (∀ e ∈ s.written, e.channel_id ≠ other.val.channel_id) ∧
      authenticated noticeDigests other otherNotice = true ∧ otherNotice.entries = [deletedVideo] ∧
      ¬ machine.Along (step noticeDigests) (SuppressedByOwn noticeDigests) .init shadowingRun := by
  obtain ⟨mid, hmid, hp⟩ := machine.exists_run (step noticeDigests)
    (show ((shadowingRun.take 1).foldlM (step noticeDigests) .init).any (fun s =>
      decide (∀ e ∈ s.written, e.channel_id ≠ other.val.channel_id) &&
        decide ((handle_notify noticeDigests s.fs s.process other otherNotice fun _ => ⟨2, none⟩).2.2.results =
          [.ok none]) &&
        ((step noticeDigests s (.notify other otherNotice fun _ => ⟨2, none⟩)).any fun s' =>
          decide (∀ e ∈ s'.written, e.channel_id ≠ other.val.channel_id))) = true by decide +kernel)
  simp only [Bool.and_eq_true, decide_eq_true_eq, Option.any_eq_true] at hp
  obtain ⟨⟨hforeign, hresults⟩, s, hs, hunlogged⟩ := hp
  have hentries : otherNotice.entries = [deletedVideo] := deletionNotice_entries
  have hfirst := machine.run_singleton.mp hmid
  refine ⟨s, machine.run_cons.mpr ⟨mid, hfirst, machine.run_singleton.mpr hs⟩, hunlogged, by decide +kernel,
    hentries, fun halong => ?_⟩
  obtain ⟨e, he, hown, _⟩ := (halong.2 mid hfirst).1 0 deletedVideo (by rw [hentries]; rfl) (by rw [hresults]; rfl)
  have hbefore : e ∈ mid.written := by simpa [recorded] using he
  exact hforeign e hbefore hown

end yt_websub.callback.notification
