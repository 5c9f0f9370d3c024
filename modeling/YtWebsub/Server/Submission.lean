import YtWebsub.Base.Json
import YtWebsub.Server.Reconcile

open rust rust.utf8 rust.text rust.num rust.map
open yt_websub.subs yt_websub.renew yt_websub.api

namespace yt_websub.server

variable {epoch : U64}

/-- The text is a complete JSON object with a `channels` member that is an array of
strings. -/
def ChannelsBody (body : Text) : Prop :=
  ∃ (members : List (List json.Piece × json.Value)) (key : List json.Piece) (strings : List (List json.Piece)),
    json.Complete (.object members) body ∧ json.Stands key "channels".toList ∧
      (key, .array (strings.map .string)) ∈ members

def Server.content (s : Server) : Option Bytes :=
  s.file.map ChannelsFile.content

/-- What a POST of this body makes of the channels file. -/
def Server.rewritten (s : Server) (received : Bytes) : Bytes :=
  encode (render_channels_file s.content (channels_of (read_body received)))

/-- How a POST goes, and what it meets. -/
inductive Course where
  /-- The channels file could not be written. -/
  | failed
  /-- A reconcile was running. -/
  | accepted (mtime : U64)
  | reconciled (mtime : U64) (readable : Bool) (fetch : Nat → Text → Option Bytes)

/-- What a reconcile does once it has read the file; time passes meanwhile. -/
def Action.reconciles : Action → Bool
  | .advance _ | .reconcile_diff _ | .reconcile_insert _ _ _ | .reconcile_answer _ _ _ _ | .reconcile_unsubscribe
  | .reconcile_remove | .reconcile_finish _ => true
  | _ => false

/-- A POST of the body is handled from its beginning to its answer, and nobody else takes
a step meanwhile. -/
def Handled (cfg : Config) (s : Server) (received : Bytes) (s' : Server) : Course → Prop
  | .failed => machine.Run (step cfg) s [.post_render received, .post_fail s.posts.length] s'
  | .accepted mtime =>
    s.reconcile_lock ≠ none ∧
      machine.Run (step cfg) s
        [.post_render received, .post_write s.posts.length mtime, .post_try_lock s.posts.length] s'
  | .reconciled mtime readable fetch =>
    s.reconcile_lock = none ∧ ∃ rest : List Action, (∀ a ∈ rest, a.reconciles = true) ∧
    s'.posts[s.posts.length]? = some (.answered 200) ∧
      machine.Run (step cfg) s
        (.post_render received :: .post_write s.posts.length mtime :: .post_try_lock s.posts.length ::
          .reconcile_read readable fetch :: rest) s'

/-- The file says already what the POST writes, and the reconcile, where there is one,
finds nothing to add or to remove. -/
def Harmless (s : Server) (received : Bytes) : Course → Prop
  | .failed => True
  | .accepted _ => s.content = some (s.rewritten received)
  | .reconciled _ readable fetch =>
    let (desired, complete, _) := desired_set (if readable then s.content else none) fetch s.resolve_cache
    s.content = some (s.rewritten received) ∧ to_add s.reg desired = [] ∧ to_remove s.reg desired complete = []

instance Harmless.decidable (s : Server) (received : Bytes) : ∀ course, Decidable (Harmless s received course)
  | .failed => isTrue trivial
  | .accepted _ => inferInstanceAs (Decidable (s.content = some (s.rewritten received)))
  | .reconciled _ _ _ => inferInstanceAs (Decidable (_ ∧ _ ∧ _))

/-- The channel has a subscription once the reconcile in progress is done. -/
def Server.Leads (s : Server) (c : Text) : Prop :=
  match s.reconcile_lock with
  | none | some (_, .reading) => c ∈ s.reg.subs
  | some (_, .diffing desired complete) => (c ∈ s.reg.subs ∨ c ∈ desired) ∧ (complete = true → c ∈ desired)
  | some (_, .pausing to_add to_remove) | some (_, .subscribing _ to_add to_remove) =>
    (c ∈ s.reg.subs ∨ c ∈ to_add) ∧ ∀ sub ∈ to_remove, sub.channel_id ≠ c
  | some (_, .unsubscribing sub to_remove) => c ∈ s.reg.subs ∧ ∀ t ∈ sub :: to_remove, t.channel_id ≠ c

/-- What is left after the diff has been applied. -/
theorem diff_leads {reg : Registry} (hkeyed : reg.Keyed) {desired : List Text} {complete : Bool} {removes : List Sub}
    (hremoves : removes.Perm (to_remove reg desired complete)) (c : Text) :
    ((c ∈ reg.subs ∨ c ∈ to_add reg desired) ∧ ∀ sub ∈ removes, sub.channel_id ≠ c) ↔
      (c ∈ reg.subs ∨ c ∈ desired) ∧ (complete = true → c ∈ desired) := by
  cases complete with
  | true =>
    rw [diff_agrees hkeyed hremoves]
    exact ⟨fun h => ⟨Or.inr h, fun _ => h⟩, fun h => h.2 rfl⟩
  | false =>
    have hnone : removes = [] := List.perm_nil.mp hremoves
    simp only [hnone, to_add, List.mem_filter, decide_eq_true_eq]
    have hold := em (c ∈ reg.subs)
    simp
    tauto

/-- Whoever takes the next step, a reconcile that has read leads to the same channels. -/
theorem Progress.leads {s s' : Server} {a : Action} (h : Progress s a s')
    (hread : ∀ readable fetch, a ≠ .reconcile_read readable fetch) (hrestart : ∀ cache, a ≠ .restart cache)
    (hkeyed : s.reg.Keyed) (c : Text) : s'.Leads c ↔ s.Leads c := by
  unfold Server.Leads
  cases h with
  | other lock channels last_read => simp only [lock, channels]
  | taken holder free lock channels last_read => rw [lock, free, channels]
  | read holder readable fetch content action file held lock channels last_read same =>
    exact absurd action (hread readable fetch)
  | diff holder desired complete removes action held removed lock channels last_read =>
    rw [held, lock, channels]
    exact diff_leads hkeyed removed c
  | insert holder cid token secret now adds removes held lock channels last_read =>
    simp only [held, lock, channels, List.mem_cons]
    tauto
  | answer holder sub adds removes held lock channels last_read => simp only [held, lock, channels]
  | unsubscribe holder sub removes held lock channels last_read => simp [held, lock, channels]
  | remove holder sub removes action held lock channels last_read =>
    simp only [held, lock, channels, List.forall_mem_cons, List.not_mem_nil, or_false]
    tauto
  | finish holder held lock channels last_read => simp [held, lock, channels]
  | restart action lock last_read renewal =>
    obtain ⟨cache, rfl⟩ := action
    exact absurd rfl (hrestart cache)

/-- The reconcile keeps its holder and the file, until it is done and the POST answered. -/
theorem reconciles_spec {cfg : Config} {s s' : Server} {a : Action} (ha : a.reconciles = true)
    (hstep : step cfg s a = some s') :
    s'.file = s.file ∧
      ((s'.posts = s.posts ∧ s'.reconcile_lock.map Prod.fst = s.reconcile_lock.map Prod.fst) ∨
        (s'.reconcile_lock = none ∧ ∀ i, s.reconcile_lock.map Prod.fst = some (.api i) →
          s'.posts = s.posts.set i (.answered 200))) := by
  cases a with
  | advance clock =>
    simp only [step] at hstep
    split at hstep <;> cases hstep
    exact ⟨rfl, Or.inl ⟨rfl, rfl⟩⟩
  | reconcile_diff removes =>
    simp only [step] at hstep
    repeat' split at hstep
    all_goals cases hstep
    rename_i hheld _
    exact ⟨rfl, Or.inl ⟨rfl, by rw [hheld]; rfl⟩⟩
  | reconcile_insert token secret now =>
    simp only [step] at hstep
    repeat' split at hstep
    all_goals cases hstep
    rename_i hheld _
    exact ⟨rfl, Or.inl ⟨rfl, by rw [hheld]; rfl⟩⟩
  | reconcile_answer res now drawn order =>
    simp only [step] at hstep
    split at hstep
    · rename_i hheld
      split at hstep
      · cases hstep
        exact ⟨rfl, Or.inl ⟨rfl, by rw [hheld]; rfl⟩⟩
      · split at hstep
        · obtain ⟨after, _, hmerge⟩ := Option.bind_eq_some_iff.mp hstep
          obtain rfl | ⟨_, _, _, _, _, rfl⟩ := merge_spec hmerge <;>
            exact ⟨rfl, Or.inl ⟨rfl, by rw [hheld]; rfl⟩⟩
        · cases hstep
    · cases hstep
  | reconcile_unsubscribe =>
    simp only [step] at hstep
    split at hstep <;> cases hstep
    rename_i hheld
    exact ⟨rfl, Or.inl ⟨rfl, by rw [hheld]; rfl⟩⟩
  | reconcile_remove =>
    simp only [step] at hstep
    split at hstep
    · rename_i hheld
      obtain ⟨_, _, rfl⟩ := Option.map_eq_some_iff.mp hstep
      exact ⟨rfl, Or.inl ⟨rfl, by rw [hheld]; rfl⟩⟩
    · cases hstep
  | reconcile_finish order =>
    simp only [step] at hstep
    split at hstep
    · rename_i holder hheld
      obtain ⟨_, _, rfl⟩ := save_spec hstep
      rw [hheld]
      cases holder with
      | renewal => exact ⟨rfl, Or.inr ⟨rfl, fun i hi => by cases hi⟩⟩
      | api j =>
        refine ⟨rfl, Or.inr ⟨rfl, fun i hi => ?_⟩⟩
        cases hi
        rfl
    · cases hstep
  | _ => cases ha

/-- The reconcile that POST `i` began in this state is in progress, or done. -/
structure Working (epoch : U64) (start : Server) (i : Nat) (s : Server) : Prop where
  sound : Sound epoch s
  file : s.file = start.file
  leads : ∀ c, s.Leads c ↔ start.Leads c
  turn : (s.reconcile_lock.map Prod.fst = some (.api i) ∧ s.posts[i]? = some .reconciling) ∨ s.reconcile_lock = none

theorem Working.step {cfg : Config} {start s s' : Server} {i : Nat} {a : Action} (h : Working epoch start i s)
    (ha : a.reconciles = true) (hstep : step cfg s a = some s') : Working epoch start i s' := by
  obtain ⟨hfile, hturn⟩ := reconciles_spec ha hstep
  have hkeyed := h.sound.memory.keyed
  have hread : ∀ readable fetch, a ≠ .reconcile_read readable fetch := by
    rintro readable fetch rfl
    cases ha
  have hrestart : ∀ cache, a ≠ .restart cache := by
    rintro cache rfl
    cases ha
  refine ⟨step_sound h.sound hstep, hfile.trans h.file,
    fun c => ((step_progress hkeyed hstep).leads hread hrestart hkeyed c).trans (h.leads c), ?_⟩
  obtain ⟨hposts, hholder⟩ | ⟨hfree, _⟩ := hturn
  · rw [hposts, hholder]
    refine h.turn.imp_right fun hfree => ?_
    rw [hfree, Option.map_none] at hholder
    exact Option.map_eq_none_iff.mp hholder
  · exact Or.inr hfree

/-- Once the POST is answered, the channels are those that its reconcile led to. -/
theorem Working.channels {start s : Server} {i : Nat} (h : Working epoch start i s)
    (hanswered : s.posts[i]? = some (.answered 200)) (c : Text) : c ∈ s.reg.subs ↔ start.Leads c := by
  have hfree : s.reconcile_lock = none := by
    refine h.turn.resolve_left fun ⟨_, hreconciling⟩ => ?_
    rw [hanswered] at hreconciling
    cases hreconciling
  rw [← h.leads c, Server.Leads, hfree]

/-- A reconcile that finds nothing to do. -/
def Idle (reg : Registry) (desired : List Text) (complete : Bool) (s : Server) : Prop :=
  s.reg = reg ∧ (s.reconcile_lock = none ∨
    ∃ holder, s.reconcile_lock = some (holder, .diffing desired complete) ∨
      s.reconcile_lock = some (holder, .pausing [] []))

theorem Idle.step {cfg : Config} {reg : Registry} {desired : List Text} {complete : Bool} {s s' : Server} {a : Action}
    (hadd : to_add reg desired = []) (hremove : to_remove reg desired complete = [])
    (h : Idle reg desired complete s) (ha : a.reconciles = true) (hstep : step cfg s a = some s') :
    Idle reg desired complete s' := by
  obtain ⟨hreg, hlock⟩ := h
  cases a with
  | advance clock =>
    simp only [server.step] at hstep
    split at hstep <;> cases hstep
    exact ⟨hreg, hlock⟩
  | reconcile_diff removes =>
    obtain hfree | ⟨holder, hdiff | hdone⟩ := hlock
    · simp [server.step, hfree] at hstep
    · simp only [server.step, hdiff, hreg, hadd, hremove, List.perm_nil] at hstep
      split at hstep <;> cases hstep
      rename_i hnone
      exact ⟨hreg, Or.inr ⟨holder, Or.inr (by rw [hnone]; rfl)⟩⟩
    · simp [server.step, hdone] at hstep
  | reconcile_finish order =>
    obtain hfree | ⟨holder, hdiff | hdone⟩ := hlock
    · simp [server.step, hfree] at hstep
    · simp [server.step, hdiff] at hstep
    · simp only [server.step, hdone] at hstep
      obtain ⟨_, _, rfl⟩ := save_spec hstep
      cases holder <;> exact ⟨hreg, Or.inl rfl⟩
  | reconcile_insert _ _ _ | reconcile_answer _ _ _ _ | reconcile_unsubscribe | reconcile_remove =>
    obtain hfree | ⟨holder, hdiff | hdone⟩ := hlock
    · simp [server.step, hfree] at hstep
    · simp [server.step, hdiff] at hstep
    · simp [server.step, hdone] at hstep
  | _ => cases ha

theorem set_concat_length {α : Type} (l : List α) (a b : α) : (l ++ [a]).set l.length b = l ++ [b] := by
  simp

/-- The state in which a POST has written the file. -/
def Server.submitted (s : Server) (received : Bytes) (mtime : U64) : Server :=
  { s.write { content := s.rewritten received, mtime } with posts := s.posts ++ [.written] }

theorem run_submitted {cfg : Config} {s s' : Server} {received : Bytes} {mtime : U64} {rest : List Action} :
    machine.Run (step cfg) s (.post_render received :: .post_write s.posts.length mtime :: rest) s' ↔
      machine.Run (step cfg) (s.submitted received mtime) rest s' := by
  have hrender : step cfg s (.post_render received) =
      some { s with posts := s.posts ++ [.rendered (s.rewritten received)] } := rfl
  have hwrite : step cfg { s with posts := s.posts ++ [.rendered (s.rewritten received)] }
      (.post_write s.posts.length mtime) = some (s.submitted received mtime) := by
    simp only [step, List.getElem?_concat_length, set_concat_length]
    rfl
  simp only [machine.run_cons, hrender, Option.some.injEq, exists_eq_left', hwrite]

/-- The state in which the reconcile of a POST has read the file. -/
def Server.resubmitted (s : Server) (received : Bytes) (mtime : U64) (readable : Bool)
    (fetch : Nat → Text → Option Bytes) : Server :=
  let content := if readable then some (s.rewritten received) else none
  let (desired, complete, cache) := desired_set content fetch s.resolve_cache
  { s.submitted received mtime with
    posts := s.posts ++ [.reconciling]
    reconcile_lock := some (.api s.posts.length, .diffing desired complete)
    resolve_cache := cache
    last_read := some { content, cache := s.resolve_cache, fetch } }

/-- A POST that gets the lock goes on from there. -/
theorem run_resubmitted {cfg : Config} {s s' : Server} {received : Bytes} {mtime : U64} {readable : Bool}
    {fetch : Nat → Text → Option Bytes} {rest : List Action} (hfree : s.reconcile_lock = none) :
    machine.Run (step cfg) (s.submitted received mtime)
        (.post_try_lock s.posts.length :: .reconcile_read readable fetch :: rest) s' ↔
      machine.Run (step cfg) (s.resubmitted received mtime readable fetch) rest s' := by
  have hlock : step cfg (s.submitted received mtime) (.post_try_lock s.posts.length) =
      some { (s.submitted received mtime).setStage (.api s.posts.length) .reading with
        posts := s.posts ++ [.reconciling] } := by
    simp only [step, Server.submitted, List.getElem?_concat_length, Server.write, hfree, set_concat_length]
  have hread : step cfg { (s.submitted received mtime).setStage (.api s.posts.length) .reading with
      posts := s.posts ++ [.reconciling] } (.reconcile_read readable fetch) =
      some (s.resubmitted received mtime readable fetch) := rfl
  simp only [machine.run_cons, hlock, Option.some.injEq, exists_eq_left', hread]

/-- From there the reconcile is at work. -/
theorem Working.start (cfg : Config) {s : Server} (hsound : Sound epoch s) (hfree : s.reconcile_lock = none)
    (received : Bytes) (mtime : U64) (readable : Bool) (fetch : Nat → Text → Option Bytes) :
    Working epoch (s.resubmitted received mtime readable fetch) s.posts.length
      (s.resubmitted received mtime readable fetch) := by
  have hrun : machine.Run (server.step cfg) s
      [.post_render received, .post_write s.posts.length mtime, .post_try_lock s.posts.length,
        .reconcile_read readable fetch] (s.resubmitted received mtime readable fetch) :=
    run_submitted.mpr ((run_resubmitted hfree).mpr (machine.run_nil.mpr rfl))
  exact ⟨hrun.invariant (Sound epoch) (fun _ _ _ h hstep => step_sound h hstep) hsound, rfl, fun c => Iff.rfl,
    Or.inl ⟨rfl, List.getElem?_concat_length⟩⟩

/-- A diff that changes no channel is empty. -/
theorem diff_eq_nil {reg : Registry} (hkeyed : reg.Keyed) {desired : List Text} {complete : Bool}
    (hsame : ∀ c, c ∈ reg.subs ↔ (c ∈ reg.subs ∨ c ∈ desired) ∧ (complete = true → c ∈ desired)) :
    to_add reg desired = [] ∧ to_remove reg desired complete = [] := by
  refine ⟨List.filter_eq_nil_iff.mpr fun c hc => ?_, ?_⟩
  · rw [decide_eq_true_eq, not_not]
    exact (hsame c).mpr ⟨Or.inr hc, fun _ => hc⟩
  · unfold to_remove
    split
    · rename_i hcomplete
      refine List.filter_eq_nil_iff.mpr fun sub hsub => ?_
      obtain ⟨c, hc⟩ := mem_values.mp hsub
      have hmem := ((hsame c).mp (AList.lookup_isSome.mp (hc ▸ rfl))).2 hcomplete
      rw [decide_eq_true_eq, not_not, hkeyed c sub hc]
      exact hmem
    · rfl

/-- A POST leaves the file and the registry as they are exactly when it is harmless. -/
theorem Handled.unchanged_iff {cfg : Config} {s s' : Server} (hsound : Sound epoch s) {received : Bytes}
    {course : Course} (h : Handled cfg s received s' course) :
    (s'.content = s.content ∧ s'.reg = s.reg) ↔ Harmless s received course := by
  cases course with
  | failed =>
    obtain ⟨rendered, hrender, hfail⟩ := machine.run_cons.mp h
    cases hrender
    rw [machine.run_singleton] at hfail
    simp only [step, List.getElem?_concat_length, Option.some.injEq] at hfail
    subst hfail
    exact ⟨fun _ => trivial, fun _ => ⟨rfl, rfl⟩⟩
  | accepted mtime =>
    obtain ⟨hbusy, hrun⟩ := h
    rw [run_submitted, machine.run_singleton] at hrun
    obtain ⟨held, hheld⟩ := Option.ne_none_iff_exists'.mp hbusy
    simp only [step, Server.submitted, List.getElem?_concat_length, Server.write, hheld, Option.some.injEq] at hrun
    subst hrun
    exact ⟨fun hsame => hsame.1.symm, fun hsame => ⟨hsame.symm, rfl⟩⟩
  | reconciled mtime readable fetch =>
    obtain ⟨hfree, rest, hrest, hanswered, hrun⟩ := h
    rw [run_submitted, run_resubmitted hfree] at hrun
    have hkeyed := hsound.memory.keyed
    have hall : ∀ a ∈ rest, ∀ _ : Server, a.reconciles = true := fun a ha _ => hrest a ha
    have hworking := hrun.invariant_along (Working epoch (s.resubmitted received mtime readable fetch) s.posts.length)
      (fun _ _ _ hw ha hstep => hw.step ha hstep) (.of_forall (P := fun _ a => Action.reconciles a = true) hall _)
      (Working.start cfg hsound hfree received mtime readable fetch)
    have hcontent : s'.content = some (s.rewritten received) := by
      rw [Server.content, hworking.file]
      rfl
    have hchannels := hworking.channels hanswered
    rw [hcontent]
    constructor
    · rintro ⟨hsame, hreg⟩
      refine ⟨hsame.symm, diff_eq_nil hkeyed fun c => ?_⟩
      rw [hreg] at hchannels
      rw [← hsame]
      exact hchannels c
    · rintro ⟨hsame, hadd, hremove⟩
      refine ⟨hsame.symm, ?_⟩
      rw [hsame] at hadd hremove
      exact (hrun.invariant_along (Idle s.reg _ _) (fun _ _ _ hidle ha hstep => hidle.step hadd hremove ha hstep)
        (.of_forall (P := fun _ a => Action.reconciles a = true) hall _) ⟨rfl, Or.inr ⟨_, Or.inl rfl⟩⟩).1

/-- A POST whose body is not a complete list changes nothing, unless the file does not say
already what the scanner makes of the body or the reconcile finds something to do. -/
theorem bad_body_ignored_iff {cfg : Config} {clock : U64} {file : Option ChannelsFile} {cache : HashMap Text Text}
    {actions : List Action} {s s' : Server} (hrun : machine.Run (step cfg) (.init clock file cache) actions s)
    {received : Bytes} {course : Course} (hhandled : Handled cfg s received s' course) :
    (¬ ChannelsBody (read_body received) → s'.content = s.content ∧ s'.reg = s.reg) ↔
      ChannelsBody (read_body received) ∨ Harmless s received course := by
  rw [hhandled.unchanged_iff (sound_of_run hrun)]
  exact or_iff_not_imp_left.symm

/-- A body without a closing brace is not complete. -/
theorem ChannelsBody.mem {body : Text} (h : ChannelsBody body) : '}' ∈ body := by
  obtain ⟨members, key, strings, hcomplete, _⟩ := h
  obtain ⟨start, after, rfl, _⟩ := hcomplete.object_ends
  simp

/-- The steps of a POST to an idle server whose reconcile goes on with these. -/
def submission (received : Bytes) (rest : List Action) : List Action :=
  .post_render received :: .post_write 0 2 :: .post_try_lock 0 :: .reconcile_read true (fun _ _ => none) :: rest

/-- The connection breaks off within the one channel that is subscribed to. -/
def brokenOff : Bytes :=
  encode "\x7b\"channels\":[\"UCabcdefghijklmnopqrstuv".toList

theorem bad_body_ignored_iff_broken_off :
    ∃ s s', machine.Run (step ⟨864000⟩) (.init 1 (some oneChannelFile) ∅) startupActions s ∧
      Handled ⟨864000⟩ s brokenOff s' (.reconciled 2 true fun _ _ => none) ∧
      ¬ ChannelsBody (read_body brokenOff) ∧ s'.content = s.content ∧ s'.reg = s.reg := by
  obtain ⟨s, hrun, hs⟩ := machine.exists_run (step ⟨864000⟩)
    (show (startupActions.foldlM (step ⟨864000⟩) (.init 1 (some oneChannelFile) ∅)).any (fun s =>
      decide (s.posts = [] ∧ s.reconcile_lock = none ∧ Harmless s brokenOff (.reconciled 2 true fun _ _ => none)) &&
        ((submission brokenOff [.reconcile_diff [], .reconcile_finish [firstSub]]).foldlM (step ⟨864000⟩) s).any
          fun s' => decide (s'.posts = [.answered 200])) = true by decide +kernel)
  rw [Bool.and_eq_true, decide_eq_true_eq] at hs
  obtain ⟨⟨hposts, hfree, hharmless⟩, hs⟩ := hs
  obtain ⟨s', hrun', hanswered⟩ := machine.exists_run (step ⟨864000⟩) hs
  rw [decide_eq_true_eq] at hanswered
  have hhandled : Handled ⟨864000⟩ s brokenOff s' (.reconciled 2 true fun _ _ => none) := by
    refine ⟨hfree, [.reconcile_diff [], .reconcile_finish [firstSub]], by simp [Action.reconciles], ?_, ?_⟩
    · rw [hanswered, hposts]
      rfl
    · rw [hposts]
      exact hrun'
  have hbad : ¬ ChannelsBody (read_body brokenOff) := fun h => absurd h.mem (by decide +kernel)
  exact ⟨s, s', hrun, hhandled, hbad, (bad_body_ignored_iff hrun hhandled).mpr (Or.inr hharmless) hbad⟩

/-- A request without a body removes the only channel from the file and unsubscribes from it. -/
theorem empty_body_unsubscribes :
    ∃ s s', machine.Run (step ⟨864000⟩) (.init 1 (some oneChannelFile) ∅) startupActions s ∧
      Handled ⟨864000⟩ s [] s' (.reconciled 2 true fun _ _ => none) ∧ firstSub.channel_id ∈ s.reg.subs ∧
      s'.content = some [] ∧ firstSub.channel_id ∉ s'.reg.subs ∧
      ¬ (¬ ChannelsBody (read_body []) → s'.content = s.content ∧ s'.reg = s.reg) := by
  obtain ⟨s, hrun, hs⟩ := machine.exists_run (step ⟨864000⟩)
    (show (startupActions.foldlM (step ⟨864000⟩) (.init 1 (some oneChannelFile) ∅)).any (fun s =>
      decide (s.posts = [] ∧ s.reconcile_lock = none ∧ firstSub.channel_id ∈ s.reg.subs) &&
        ((submission [] [.reconcile_diff [firstSub], .reconcile_unsubscribe, .reconcile_remove,
          .reconcile_finish []]).foldlM (step ⟨864000⟩) s).any fun s' =>
            decide (s'.posts = [.answered 200] ∧ s'.content = some [] ∧ firstSub.channel_id ∉ s'.reg.subs)) = true
      by decide +kernel)
  rw [Bool.and_eq_true, decide_eq_true_eq] at hs
  obtain ⟨⟨hposts, hfree, hsubscribed⟩, hs⟩ := hs
  obtain ⟨s', hrun', hs'⟩ := machine.exists_run (step ⟨864000⟩) hs
  rw [decide_eq_true_eq] at hs'
  obtain ⟨hanswered, hempty, hremoved⟩ := hs'
  refine ⟨s, s', hrun, ⟨hfree, [.reconcile_diff [firstSub], .reconcile_unsubscribe, .reconcile_remove,
    .reconcile_finish []], by simp [Action.reconciles], ?_, ?_⟩, hsubscribed, hempty, hremoved, fun hignored => ?_⟩
  · rw [hanswered, hposts]
    rfl
  · rw [hposts]
    exact hrun'
  · have hbad : ¬ ChannelsBody (read_body []) := fun h => absurd h.mem (by decide +kernel)
    rw [(hignored hbad).2] at hremoved
    exact hremoved hsubscribed

end yt_websub.server
