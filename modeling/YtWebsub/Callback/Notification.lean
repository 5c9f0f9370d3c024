import YtWebsub.Base.Machine
import YtWebsub.Callback
import YtWebsub.Store.Framing

open rust rust.utf8 rust.text rust.num rust.fs
open yt_websub.resolve yt_websub.store yt_websub.subs

namespace yt_websub.callback.notification

/-- A subscription whose channel was resolved, as all of the registry's are. -/
abbrev ResolvedSub := { sub : Sub // is_channel_id sub.channel_id = true }

/-- The log, the process that uses it, and every event it has found in the log or has
had written there by a successful append. -/
structure Session where
  fs : FileSystem
  process : Store
  written : List Event

def Session.init : Session where
  fs := (Store.open .empty).1
  process := (Store.open .empty).2
  written := []

inductive Action where
  | notify (sub : ResolvedSub) (req : Request) (env : Nat → AppendEnv)
  | set_ack (through : U64)
  | compact
  | reopen

/-- The arguments of the append for one entry. -/
def appendCall (sub : Sub) (now : U64) (entry : atom.Entry) : Call where
  now := now
  kind := entry.kind
  channel_id := sub.channel_id
  video_id := entry.video_id
  ts := entry.ts
  title := entry.title

/-- The event that an append of the entry writes under a number. -/
def eventOf (sub : Sub) (now : U64) (entry : atom.Entry) (seq : U64) : Event where
  seq := seq
  received_at := now
  kind := entry.kind
  channel_id := sub.channel_id
  video_id := entry.video_id
  ts := entry.ts
  title := entry.title

/-- The events of the successful appends of one notification. -/
def recorded (sub : Sub) (env : Nat → AppendEnv) : Nat → List atom.Entry → List AppendResult → List Event
  | i, entry :: entries, .ok (some seq) :: results =>
    eventOf sub (env i).now entry seq :: recorded sub env (i + 1) entries results
  | i, _ :: entries, _ :: results => recorded sub env (i + 1) entries results
  | _, _, _ => []

def step (hmac : Bytes → Bytes → Bytes) (s : Session) : Action → Option Session
  | .notify sub req env =>
    match handle_notify hmac s.fs s.process sub req env with
    | (fs, process, answer) =>
      if answer.status.isSome then
        some { fs, process, written := s.written ++ recorded sub env 0 req.entries answer.results }
      else none
  | .set_ack through =>
    let (fs, process) := s.process.set_ack s.fs through none
    some { s with fs, process }
  | .compact =>
    match s.process.maybe_compact s.fs none with
    | (fs, process, true) => some { s with fs, process }
    | _ => none
  | .reopen =>
    let (fs, process) := Store.open s.fs
    some { fs, process, written := s.written ++ logged s.fs }

/-- An entry repeats an event in everything that deduplication looks at. -/
def Repeats (entry : atom.Entry) (e : Event) : Prop :=
  e.video_id = entry.video_id ∧ e.ts = entry.ts ∧ e.kind = entry.kind

/-- What the duplicate filter rests on: it knows only events that are on record, and
their keys determine them. -/
structure Remembers (fs : FileSystem) (store : Store) (written : List Event) : Prop where
  handle : fs.entries events_path = some store.log
  keys : store.seen ⊆ (store.recent.map Event.key).toFinset
  window : ∀ e ∈ store.recent, e ∈ written
  framing : framed 0 (logBytes fs) = true
  unambiguous : ∀ e ∈ written, e.Unambiguous

theorem Remembers.init : Remembers Session.init.fs Session.init.process Session.init.written where
  handle := rfl
  keys := by decide
  window := by simp [Session.init, Store.open, FileSystem.read, FileSystem.empty, load_lines]
  framing := rfl
  unambiguous := by simp [Session.init]

/-- The callback's appends write framed lines with unambiguous keys. -/
theorem eventOf_framed (sub : ResolvedSub) {entry : atom.Entry}
    (hentry : atom.is_video_id entry.video_id = true ∧ atom.isKind entry.kind) (now seq : U64) :
    framed 0 (encode (format_line (eventOf sub now entry seq))) = true ∧
      (eventOf sub now entry seq).Unambiguous := by
  have hkind := atom.alphabet_of_isKind hentry.2
  have hchannel := is_channel_id_alphabet sub.property
  have hvideo := (Bool.and_eq_true_iff.mp hentry.1).2
  refine ⟨framed_format_line ?_, ?_⟩
  · intro s hs
    have halphabet : (encode s).all isIdByte = true := by
      simp only [eventOf, List.mem_cons, List.not_mem_nil, or_false] at hs
      obtain rfl | rfl | rfl := hs
      · exact hkind
      · exact hchannel
      · exact hvideo
    rw [pct_encode_id halphabet]
    exact ⟨not_mem_of_all_isIdByte halphabet (by decide), not_mem_of_all_isIdByte halphabet (by decide)⟩
  · exact atom.separator_free hentry.1 hentry.2

/-- The filter knows a key only for an event in the window, which repeats the entry. -/
theorem Remembers.window_of_seen {fs : FileSystem} {store : Store} {written : List Event}
    (h : Remembers fs store written) {entry : atom.Entry}
    (hentry : atom.is_video_id entry.video_id = true ∧ atom.isKind entry.kind)
    (hseen : dedup_key entry.video_id entry.ts entry.kind ∈ store.seen) :
    ∃ e ∈ store.recent, Repeats entry e := by
  have hmem := h.keys hseen
  rw [List.mem_toFinset] at hmem
  obtain ⟨e, he, hkey⟩ := List.mem_map.mp hmem
  obtain ⟨hvideo, hkind⟩ := h.unambiguous e (h.window e he)
  obtain ⟨hvideo', hkind'⟩ := atom.separator_free hentry.1 hentry.2
  obtain ⟨h1, h2, h3⟩ := dedup_key_injective hvideo hvideo' hkind hkind' hkey
  exact ⟨e, he, h1, h2, h3⟩

/-- What one append of a live loop leaves for the rest of it. -/
theorem Remembers.append_of_live {fs mid : FileSystem} {store store_mid : Store} {written : List Event}
    (h : Remembers fs store written) (sub : ResolvedSub) {entry : atom.Entry}
    (hentry : atom.is_video_id entry.video_id = true ∧ atom.isKind entry.kind) {env : Nat → AppendEnv} {i : Nat}
    {result : AppendResult} (hcall : store.call fs (appendCall sub (env i).now entry) (env i).fault =
      (mid, store_mid, result)) (hlive : result ≠ .panic) :
    Remembers mid store_mid (written ++ recorded sub env i [entry] [result]) := by
  obtain ⟨hframed, hplain⟩ := eventOf_framed sub hentry (env i).now store.next_seq
  obtain ⟨_, hcases⟩ | ⟨_, _, torn, htorn, hcases⟩ | ⟨_, _, _, hcases⟩ | ⟨_, _, next_seq, _, hcases⟩ :=
    call_cases fs store (appendCall sub (env i).now entry) (env i).fault
  all_goals
    rw [hcall, Prod.mk.injEq, Prod.mk.injEq] at hcases
    obtain ⟨rfl, rfl, rfl⟩ := hcases
  · simpa [recorded] using h
  · simp only [recorded, List.append_nil]
    refine ⟨h.handle, h.keys, h.window, ?_, h.unambiguous⟩
    rw [logBytes_append h.handle]
    exact framed_add h.framing (framed_of_initial htorn hframed)
  · exact absurd rfl hlive
  · refine ⟨h.handle, push_seen_subset h.keys _, fun e he => ?_, ?_, fun e he => ?_⟩
    · have hmem := (push_recent_subset _ _) he
      refine List.mem_append.mpr ((List.mem_append.mp hmem).imp (h.window e) fun hnew => ?_)
      rw [List.mem_singleton] at hnew
      rw [hnew]
      exact List.mem_singleton_self _
    · rw [logBytes, FileSystem.sync_read, ← logBytes, logBytes_append h.handle]
      exact framed_add h.framing hframed
    · obtain he | he := List.mem_append.mp he
      · exact h.unambiguous e he
      · rw [List.mem_singleton.mp he]
        exact hplain

/-- The appended events are those of the entries whose append succeeded. -/
theorem of_mem_recorded {sub : Sub} {env : Nat → AppendEnv} {i : Nat} {entries : List atom.Entry}
    {results : List AppendResult} {e : Event} (h : e ∈ recorded sub env i entries results) :
    ∃ k entry seq, entries[k]? = some entry ∧ results[k]? = some (.ok (some seq)) ∧
      e = eventOf sub (env (i + k)).now entry seq := by
  fun_induction recorded sub env i entries results with
  | case1 i entry entries seq results ih =>
    obtain rfl | h := List.mem_cons.mp h
    · exact ⟨0, entry, seq, rfl, rfl, rfl⟩
    · obtain ⟨k, entry', seq', hentry, hresult, rfl⟩ := ih h
      exact ⟨k + 1, entry', seq', hentry, hresult, by rw [Nat.add_right_comm, Nat.add_assoc]⟩
  | case2 i entry entries result results hfail ih =>
    obtain ⟨k, entry', seq', hentry, hresult, rfl⟩ := ih h
    exact ⟨k + 1, entry', seq', hentry, hresult, by rw [Nat.add_right_comm, Nat.add_assoc]⟩
  | case3 => cases h

/-- The loop goes on after every result but a panic. -/
theorem append_entries_cons {sub : Sub} {env : Nat → AppendEnv} {i : Nat} {fs fs' : FileSystem} {store store' : Store}
    {entry : atom.Entry} {entries : List atom.Entry} {results : List AppendResult}
    (hloop : append_entries sub env i fs store (entry :: entries) = (fs', store', results))
    (hlive : .panic ∉ results) :
    ∃ mid store_mid result rest, store.call fs (appendCall sub (env i).now entry)
      (env i).fault = (mid, store_mid, result) ∧
      append_entries sub env (i + 1) mid store_mid entries = (fs', store', rest) ∧ results = result :: rest := by
  obtain ⟨mid, store_mid, result, hcall⟩ : ∃ mid store_mid result,
      store.call fs (appendCall sub (env i).now entry) (env i).fault = (mid, store_mid, result) := ⟨_, _, _, rfl⟩
  have happend : store.append fs (env i).now (env i).fault entry.kind sub.channel_id entry.video_id entry.ts
      entry.title = (mid, store_mid, result) := hcall
  rw [append_entries, happend] at hloop
  obtain ⟨fs_rest, store_rest, rest, hrest⟩ : ∃ fs_rest store_rest rest,
      append_entries sub env (i + 1) mid store_mid entries = (fs_rest, store_rest, rest) := ⟨_, _, _, rfl⟩
  cases result with
  | panic =>
    simp only [Prod.mk.injEq] at hloop
    obtain ⟨_, _, rfl⟩ := hloop
    exact absurd List.mem_cons_self hlive
  | ok seq =>
    simp only [hrest, Prod.mk.injEq] at hloop
    obtain ⟨rfl, rfl, rfl⟩ := hloop
    exact ⟨mid, store_mid, _, rest, hcall, hrest, rfl⟩
  | err =>
    simp only [hrest, Prod.mk.injEq] at hloop
    obtain ⟨rfl, rfl, rfl⟩ := hloop
    exact ⟨mid, store_mid, _, rest, hcall, hrest, rfl⟩

theorem recorded_cons (sub : Sub) (env : Nat → AppendEnv) (i : Nat) (entry : atom.Entry)
    (entries : List atom.Entry) (result : AppendResult) (results : List AppendResult) :
    recorded sub env i (entry :: entries) (result :: results) =
      recorded sub env i [entry] [result] ++ recorded sub env (i + 1) entries results := by
  cases result with
  | ok seq => cases seq <;> simp [recorded]
  | err => simp [recorded]
  | panic => simp [recorded]

/-- The loop adds the events of its successful appends to what is on record. -/
theorem Remembers.append_entries {fs : FileSystem} {store : Store} {written : List Event}
    (h : Remembers fs store written) (sub : ResolvedSub) (env : Nat → AppendEnv) (i : Nat)
    {entries : List atom.Entry}
    (hentries : ∀ entry ∈ entries, atom.is_video_id entry.video_id = true ∧ atom.isKind entry.kind)
    {fs' : FileSystem} {store' : Store} {results : List AppendResult}
    (hloop : append_entries sub env i fs store entries = (fs', store', results)) (hlive : .panic ∉ results) :
    Remembers fs' store' (written ++ recorded sub env i entries results) := by
  induction entries generalizing i fs store written results with
  | nil =>
    simp only [callback.append_entries, Prod.mk.injEq] at hloop
    obtain ⟨rfl, rfl, rfl⟩ := hloop
    simpa [recorded] using h
  | cons entry entries ih =>
    obtain ⟨mid, store_mid, result, rest, hcall, hrest, rfl⟩ := append_entries_cons hloop hlive
    obtain ⟨hresult, hrestlive⟩ := not_or.mp (List.mem_cons.not.mp hlive)
    obtain ⟨hfirst, htail⟩ := List.forall_mem_cons.mp hentries
    rw [recorded_cons, ← List.append_assoc]
    exact ih (h.append_of_live sub hfirst hcall (Ne.symm hresult)) (i + 1) htail hrest hrestlive

theorem handle_notify_of_authenticated {hmac : Bytes → Bytes → Bytes} {fs fs' : FileSystem} {store store' : Store}
    {sub : Sub} {req : Request} {env : Nat → AppendEnv} {answer : Answer} (hauth : authenticated hmac sub req = true)
    (h : handle_notify hmac fs store sub req env = (fs', store', answer)) (hlive : answer.status.isSome) :
    append_entries sub env 0 fs store req.entries = (fs', store', answer.results) ∧ .panic ∉ answer.results := by
  obtain ⟨fs_end, store_end, results, hloop⟩ : ∃ fs_end store_end results,
      append_entries sub env 0 fs store req.entries = (fs_end, store_end, results) := ⟨_, _, _, rfl⟩
  simp only [handle_notify, hauth, if_true, hloop, Prod.mk.injEq] at h
  obtain ⟨rfl, rfl, rfl⟩ := h
  refine ⟨hloop, fun hpanic => ?_⟩
  simp [hpanic] at hlive

/-- A notification that is answered runs the loop to its end, or is dropped unread. -/
theorem step_notify {hmac : Bytes → Bytes → Bytes} {s s' : Session} {sub : ResolvedSub} {req : Request}
    {env : Nat → AppendEnv} (hstep : step hmac s (.notify sub req env) = some s') :
    (authenticated hmac sub req = true ∧ ∃ results,
      append_entries sub env 0 s.fs s.process req.entries = (s'.fs, s'.process, results) ∧ .panic ∉ results ∧
        (handle_notify hmac s.fs s.process sub req env).2.2.results = results ∧
        s'.written = s.written ++ recorded sub env 0 req.entries results) ∨
    (authenticated hmac sub req = false ∧ s' = s ∧
      (handle_notify hmac s.fs s.process sub req env).2.2.results = []) := by
  obtain ⟨fs, process, answer, hnotify⟩ : ∃ fs process answer,
      handle_notify hmac s.fs s.process sub req env = (fs, process, answer) := ⟨_, _, _, rfl⟩
  simp only [step, hnotify] at hstep
  split at hstep
  · rename_i hlive
    rw [Option.some.injEq] at hstep
    subst hstep
    rw [hnotify]
    cases hauth : authenticated hmac sub req with
    | true =>
      obtain ⟨hloop, hpanic⟩ := handle_notify_of_authenticated hauth hnotify hlive
      exact Or.inl ⟨rfl, answer.results, hloop, hpanic, rfl, rfl⟩
    | false =>
      simp only [handle_notify, hauth, Bool.false_eq_true, if_false, Prod.mk.injEq] at hnotify
      obtain ⟨rfl, rfl, rfl⟩ := hnotify
      exact Or.inr ⟨rfl, by simp [recorded], rfl⟩
  · cases hstep

theorem Remembers.notify {hmac : Bytes → Bytes → Bytes} {s s' : Session}
    (h : Remembers s.fs s.process s.written) {sub : ResolvedSub} {req : Request} {env : Nat → AppendEnv}
    (hstep : step hmac s (.notify sub req env) = some s') : Remembers s'.fs s'.process s'.written := by
  obtain ⟨_, results, hloop, hlive, _, hwritten⟩ | ⟨_, rfl, _⟩ := step_notify hstep
  · rw [hwritten]
    exact h.append_entries sub env 0 (fun entry hentry => atom.parse_valid hentry) hloop hlive
  · exact h

theorem Remembers.set_ack {fs : FileSystem} {store : Store} {written : List Event} (h : Remembers fs store written)
    (through : U64) :
    Remembers (store.set_ack fs through none).1 (store.set_ack fs through none).2 written := by
  obtain ⟨_, hack⟩ | ⟨_, fs', hack, _, hentries, hread⟩ := set_ack_cases fs store through
  · rw [hack]
    exact h
  · rw [hack]
    refine ⟨hentries.trans h.handle, h.keys, h.window, ?_, h.unambiguous⟩
    rw [logBytes, hread]
    exact h.framing

theorem Remembers.compact {fs fs' : FileSystem} {store store' : Store} {written : List Event}
    (h : Remembers fs store written) (hcompact : store.maybe_compact fs none = (fs', store', true)) :
    Remembers fs' store' written := by
  obtain ⟨fs_end, log, heq, hhandle, _, hlog⟩ := compact_cases (s := store) h.handle
  rw [hcompact, Prod.mk.injEq, Prod.mk.injEq] at heq
  obtain ⟨rfl, rfl, _⟩ := heq
  refine ⟨hhandle, h.keys, h.window, ?_, h.unambiguous⟩
  obtain ⟨hsame, _⟩ | ⟨_, hcopied⟩ := hlog
  · rw [hsame]
    exact h.framing
  · rw [hcopied]
    exact framed_copy_lines h.framing store.keep_above

theorem Remembers.reopen {fs : FileSystem} {store : Store} {written : List Event} (h : Remembers fs store written) :
    Remembers (Store.open fs).1 (Store.open fs).2 (written ++ logged fs) := by
  obtain ⟨_, hwindow, hkeys⟩ := open_spec fs
  refine ⟨?_, hkeys.subset, ?_, ?_, ?_⟩
  · rw [open_fs, open_log, FileSystem.openAppend_entries_self]
  · intro e he
    rw [hwindow] at he
    exact List.mem_append_right _ (List.mem_of_mem_drop he)
  · rw [logBytes, open_fs, FileSystem.openAppend_read_self]
    exact h.framing
  · intro e he
    obtain he | he := List.mem_append.mp he
    · exact h.unambiguous e he
    · rw [logged_eq] at he
      exact unambiguous_of_mem_eventsIn h.framing he

theorem step_remembers {hmac : Bytes → Bytes → Bytes} {s s' : Session} {a : Action}
    (h : Remembers s.fs s.process s.written) (hstep : step hmac s a = some s') :
    Remembers s'.fs s'.process s'.written := by
  cases a with
  | notify sub req env => exact h.notify hstep
  | set_ack through =>
    simp only [step, Option.some.injEq] at hstep
    subst hstep
    exact h.set_ack through
  | compact =>
    simp only [step] at hstep
    split at hstep
    · rename_i fs process hcompact
      rw [Option.some.injEq] at hstep
      subst hstep
      exact h.compact hcompact
    · cases hstep
  | reopen =>
    simp only [step, Option.some.injEq] at hstep
    subst hstep
    exact h.reopen

/-- The notice that a video is gone, signed with the secret of the subscription below. -/
def deletionNotice : Request where
  headers := [("Host".toList, "websub.example".toList),
    ("x-hub-signature".toList, "sha1=a1b184c43f6e38f2bd98df337082c384a45ea0fc".toList)]
  received := encode "<at:deleted-entry ref=\"yt:video:abc123XYZ_-\"></at:deleted-entry>".toList

def subscribed : ResolvedSub :=
  ⟨Sub.new "UCabcdefghijklmnopqrstuv".toList "00112233445566778899aabbccddeeff".toList
    "0123456789abcdef0123456789abcdef01234567".toList, by decide⟩

/-- What HMAC-SHA1 gives for that secret and that notice. -/
def noticeDigest : Bytes → Bytes → Bytes := fun _ _ =>
  [161, 177, 132, 196, 63, 110, 56, 242, 189, 152, 223, 51, 112, 130, 195, 132, 164, 94, 160, 252]

def deletedVideo : atom.Entry where
  kind := "deleted".toList
  channel_id := []
  video_id := "abc123XYZ_-".toList
  title := []
  ts := []

theorem deletionNotice_entries : deletionNotice.entries = [deletedVideo] := by
  decide +kernel

end yt_websub.callback.notification
