import YtWebsub.Store.Lifecycle

open rust rust.utf8 rust.text rust.num rust.fs
open yt_websub.util
open paging

namespace yt_websub.store.lifecycle

/-- The client asks for at least one event and acknowledges only what it has received. -/
def Disciplined (s : Session) : Action → Prop
  | .poll max => 1 ≤ max
  | .set_ack through => ∃ e ∈ s.delivered, e.seq = through
  | _ => True

/-- In-order, exactly-once delivery up to the cursor, retirement by age apart. -/
structure DeliveredOnce (s : Session) : Prop where
  in_order : Increasing Event.seq s.delivered
  genuine : ∀ e ∈ s.delivered, e ∈ s.history
  no_skip : ∀ e ∈ s.history, e.seq ≤ s.cursor → e ∈ s.delivered ∨ e ∈ s.retired
  answers : ∀ max, 1 ≤ max → ∃ events, s.process.events_after s.fs s.cursor max = some events
  empty_poll : ∀ max, 1 ≤ max → s.process.events_after s.fs s.cursor max = some [] →
    ∀ e ∈ s.history, e ∈ logged s.fs ∨ e ∈ s.process.recent → e.seq ≤ s.cursor

/-- The last event written is in the log, unless the log is empty. -/
theorem Ordered.last_logged {s : Session} (h : Ordered s) (hne : logged s.fs ≠ []) :
    ∃ last ∈ logged s.fs, ∀ e ∈ s.history, e.seq ≤ last.seq := by
  refine ⟨(logged s.fs).getLast hne, List.getLast_mem hne, fun e he => ?_⟩
  have hle := h.increasing.le_advance 0 he
  rw [advance, ← getLast?_of_suffix h.kept hne, List.getLast?_eq_some_getLast hne] at hle
  exact hle

/-- Nothing past the last number is acknowledged. -/
def AcksAssigned (s : Session) : Action → Prop
  | .set_ack through => through ≤ s.process.max_seq
  | _ => True

/-- The acknowledged cursor is on disk and behind the counter, and no compaction has
emptied the log. -/
structure Anchored (s : Session) : Prop where
  ordered : Ordered s
  ack_file : load_ack s.fs = s.process.ack_through
  acked : s.process.ack_through < s.process.next_seq
  last_kept : s.history = [] ∨ logged s.fs ≠ []

theorem Anchored.init : Anchored .init where
  ordered := .init
  ack_file := rfl
  acked := by decide
  last_kept := Or.inl rfl

theorem Ordered.lt_next_seq_of_le_max_seq {s : Session} (h : Ordered s) {through : U64}
    (hle : through ≤ s.process.max_seq) : through < s.process.next_seq := by
  have hcounter := h.counter
  rw [Fin.le_def, Store.max_seq, saturating_sub_val] at hle
  rw [Fin.lt_def]
  omega

/-- The compaction bound stays below the last event. -/
theorem Anchored.keep_above_lt {s : Session} (h : Anchored s) {last : Event} (hlast : last ∈ s.history)
    (hle : ∀ e ∈ s.history, e.seq ≤ last.seq) : s.process.keep_above < last.seq := by
  have hnext : s.process.next_seq.val ≤ last.seq.val + 1 := by
    rw [h.ordered.counter]
    cases hend : s.history.getLast? with
    | none => exact Nat.succ_le_succ (Nat.zero_le _)
    | some e => exact Nat.succ_le_succ (hle e (List.mem_of_getLast? hend))
  have hpositive := h.ordered.positive last hlast
  have hacked := h.acked
  rw [Fin.lt_def] at hacked
  refine max_lt ?_ ?_
  · rw [Fin.lt_def, saturating_sub_val]
    simp only [COMPACT_MARGIN]
    omega
  · rw [Fin.lt_def, saturating_sub_val, Store.max_seq, saturating_sub_val]
    simp only [MAX_RETAINED_EVENTS]
    omega

theorem Anchored.append {s s' : Session} (h : Anchored s) {c : Call} (hstep : step s (.append c) = some s') :
    Anchored s' := by
  have hordered := step_ordered (a := .append c) h.ordered trivial hstep
  obtain rfl | ⟨_, fs, next_seq, hadd, rfl, _, hlogged, hack⟩ := step_append h.ordered.intact hstep
  · exact h
  · have hnext : s.process.next_seq < next_seq := by
      rw [Fin.lt_def, checked_add_eq_some.mp hadd]
      omega
    refine ⟨hordered, hack.trans h.ack_file, h.acked.trans hnext, Or.inr ?_⟩
    rw [hlogged]
    simp

theorem Anchored.set_ack {s s' : Session} (h : Anchored s) {through : U64}
    (hassigned : through < s.process.next_seq) (hstep : step s (.set_ack through) = some s') : Anchored s' := by
  have hordered := step_ordered (a := .set_ack through) h.ordered trivial hstep
  simp only [step, Option.some.injEq] at hstep
  subst hstep
  rcases set_ack_cases s.fs s.process through with ⟨_, hsame⟩ | ⟨_, fs, hset, hread, _, hlog⟩
  · simp only [hsame]
    exact h
  · have hlogged : logged fs = logged s.fs := by rw [logged, hlog, logged]
    simp only [hset] at hordered ⊢
    refine ⟨hordered, load_ack_of_read hread, hassigned, ?_⟩
    simp only [hlogged]
    exact h.last_kept

/-- A compaction never drops the last event. -/
theorem Anchored.compact {s s' : Session} (h : Anchored s) (hstep : step s .compact = some s') : Anchored s' := by
  have hordered := step_ordered (a := .compact) h.ordered trivial hstep
  obtain ⟨fs, log, hcompact, _, hack, _, hcases⟩ := h.ordered.compact_spec
  rw [hcompact, Option.some.injEq] at hstep
  subst hstep
  refine ⟨hordered, ?_, h.acked, h.last_kept.imp_right fun hne => ?_⟩
  · simp only [load_ack, hack]
    exact h.ack_file
  · obtain ⟨last, hlast, hle⟩ := h.ordered.last_logged hne
    refine List.ne_nil_of_mem (a := last) ?_
    rcases hcases with ⟨hsame, _⟩ | ⟨_, hfiltered⟩
    · exact hsame.symm ▸ hlast
    · rw [hfiltered]
      exact List.mem_filter.mpr ⟨hlast, decide_eq_true (h.keep_above_lt (h.ordered.kept.subset hlast) hle)⟩

/-- A restart computes the counter it had. -/
theorem Anchored.next_seq_reopen {s : Session} (h : Anchored s) :
    (Store.open s.fs).2.next_seq = s.process.next_seq :=
  Fin.ext ((h.ordered.reopen h.last_kept).counter.trans h.ordered.counter.symm)

/-- A restart reads back the log and the acknowledged cursor. -/
theorem Anchored.reopen {s s' : Session} (h : Anchored s) (hstep : step s .reopen = some s') : Anchored s' := by
  have hordered := step_ordered (a := .reopen) h.ordered h.last_kept hstep
  simp only [step, Option.some.injEq] at hstep
  subst hstep
  obtain ⟨_, hlogged⟩ := h.ordered.intact.reopen
  have hack : load_ack (Store.open s.fs).1 = load_ack s.fs := by
    rw [load_ack, open_fs, FileSystem.openAppend_read_of_ne _ tmp_paths.1, load_ack]
  have hopen : (Store.open s.fs).2.ack_through = load_ack s.fs := rfl
  refine ⟨hordered, ?_, ?_, ?_⟩
  · simp only [hack, hopen]
  · simp only [hopen, h.ack_file, h.next_seq_reopen]
    exact h.acked
  · simp only [hlogged]
    exact h.last_kept

theorem step_anchored {s s' : Session} {a : Action} (h : Anchored s) (hacks : AcksAssigned s a)
    (hstep : step s a = some s') : Anchored s' := by
  cases a with
  | append c => exact h.append hstep
  | poll max =>
    have hordered := step_ordered (a := .poll max) h.ordered trivial hstep
    simp only [step] at hstep
    split at hstep
    · cases hstep
    · rw [Option.some.injEq] at hstep
      subst hstep
      exact ⟨hordered, h.ack_file, h.acked, h.last_kept⟩
  | set_ack through => exact h.set_ack (h.ordered.lt_next_seq_of_le_max_seq hacks) hstep
  | compact => exact h.compact hstep
  | reopen => exact h.reopen hstep

/-- What ties the client to the log: the acknowledged cursor never passes the client's,
and everything missing from the log was delivered or retired. -/
structure Delivering (s : Session) : Prop where
  ordered : Ordered s
  ack_file : load_ack s.fs = s.process.ack_through
  acked : s.process.ack_through ≤ s.cursor
  last_kept : s.history = [] ∨ logged s.fs ≠ []
  dropped : ∀ e ∈ s.history, e ∈ logged s.fs ∨ e.seq ≤ s.cursor ∨ e ∈ s.retired
  behind : s.cursor < s.process.next_seq
  in_order : Increasing Event.seq s.delivered
  genuine : ∀ e ∈ s.delivered, e ∈ s.history
  received : ∀ e ∈ s.delivered, e.seq ≤ s.cursor
  no_skip : ∀ e ∈ s.history, e.seq ≤ s.cursor → e ∈ s.delivered ∨ e ∈ s.retired

theorem Delivering.init : Delivering .init where
  ordered := .init
  ack_file := rfl
  acked := le_rfl
  last_kept := Or.inl rfl
  dropped := by simp [Session.init]
  behind := by decide
  in_order := List.Pairwise.nil
  genuine := by simp [Session.init]
  received := by simp [Session.init]
  no_skip := by simp [Session.init]

theorem Delivering.anchored {s : Session} (h : Delivering s) : Anchored s :=
  ⟨h.ordered, h.ack_file, h.acked.trans_lt h.behind, h.last_kept⟩

/-- A poll from the client's cursor is one page of its source. -/
theorem Delivering.events_after {s : Session} (h : Delivering s) {max : Nat} (hmax : 1 ≤ max) :
    s.process.events_after s.fs s.cursor max =
      some (page Event.seq s.cursor max (s.process.source s.fs s.cursor)) := by
  have hlimit : s.cursor < U64.MAX := by
    have hlt := h.behind
    have hnext := s.process.next_seq.isLt
    rw [Fin.lt_def] at hlt ⊢
    simp only [U64.MAX]
    omega
  exact events_after_eq s.fs s.process hlimit hmax

/-- A poll sees every logged event above its cursor. -/
theorem Ordered.mem_source_of_logged {s : Session} (h : Ordered s) {e : Event} (he : e ∈ logged s.fs)
    {after : U64} (hlater : after < e.seq) : e ∈ s.process.source s.fs after := by
  have hmem := h.kept.subset he
  exact mem_source (h.increasing.imp le_of_lt) h.window hmem he
    (fun e' he' hsame => h.increasing.eq_of_key he' hmem hsame) (h.lt_counter hmem) hlater

/-- An event above the cursor that a poll cannot see was retired. -/
theorem Delivering.mem_source {s : Session} (h : Delivering s) {e : Event} (he : e ∈ s.history)
    (hlater : s.cursor < e.seq) : e ∈ s.process.source s.fs s.cursor ∨ e ∈ s.retired := by
  rcases h.dropped e he with hlogged | hdelivered | hretired
  · exact Or.inl (h.ordered.mem_source_of_logged hlogged hlater)
  · exact absurd hlater (not_lt.mpr hdelivered)
  · exact Or.inr hretired

theorem Delivering.deliveredOnce {s : Session} (h : Delivering s) : DeliveredOnce s where
  in_order := h.in_order
  genuine := h.genuine
  no_skip := h.no_skip
  answers max hmax := ⟨_, h.events_after hmax⟩
  empty_poll max hmax hempty e he _ := by
    rw [h.events_after hmax, Option.some.injEq] at hempty
    obtain ⟨last, hlast, hle⟩ := h.ordered.last_logged (h.last_kept.resolve_left (List.ne_nil_of_mem he))
    refine (hle e he).trans ?_
    -- Were the last event above the cursor, the page would have started before it.
    by_contra hlater
    have hmem := h.ordered.mem_source_of_logged hlast (not_le.mp hlater)
    exact hlater (le_of_page_eq_nil hmax hempty hmem)

theorem Delivering.append {s s' : Session} (h : Delivering s) {c : Call} (hstep : step s (.append c) = some s') :
    Delivering s' := by
  have hanchored := h.anchored.append hstep
  obtain rfl | ⟨_, fs, next_seq, hadd, rfl, _, hlogged, _⟩ := step_append h.ordered.intact hstep
  · exact h
  · have hnext : s.process.next_seq < next_seq := by
      rw [Fin.lt_def, checked_add_eq_some.mp hadd]
      omega
    refine ⟨hanchored.ordered, hanchored.ack_file, h.acked, hanchored.last_kept, fun e he => ?_,
      h.behind.trans hnext, h.in_order, ?_, h.received, ?_⟩
    · rw [hlogged]
      rcases List.mem_append.mp he with he | he
      · exact (h.dropped e he).imp_left (List.mem_append_left _)
      · exact Or.inl (List.mem_append_right _ he)
    · exact fun e he => List.mem_append_left _ (h.genuine e he)
    · intro e he hle
      rcases List.mem_append.mp he with he | he
      · exact h.no_skip e he hle
      · rw [List.mem_singleton.mp he] at hle
        exact absurd h.behind (not_lt.mpr hle)

/-- A poll moves the cursor to the end of a page and leaves nothing behind it out. -/
theorem Delivering.poll {s s' : Session} (h : Delivering s) {max : Nat} (hmax : 1 ≤ max)
    (hstep : step s (.poll max) = some s') : Delivering s' := by
  have hordered := step_ordered (a := .poll max) h.ordered trivial hstep
  simp only [step, h.events_after hmax, Option.some.injEq] at hstep
  subst hstep
  have hsource := h.ordered.increasing.of_suffix (h.ordered.source_suffix s.cursor)
  have hgenuine : ∀ e ∈ page Event.seq s.cursor max (s.process.source s.fs s.cursor), e ∈ s.history :=
    fun e he => (h.ordered.source_suffix s.cursor).subset (mem_page he).1
  have hpage := hsource.page s.cursor max
  have hle := le_advance_page Event.seq s.cursor max (s.process.source s.fs s.cursor)
  have hreceived : ∀ e ∈ s.delivered ++ page Event.seq s.cursor max (s.process.source s.fs s.cursor),
      e.seq ≤ advance Event.seq s.cursor (page Event.seq s.cursor max (s.process.source s.fs s.cursor)) := by
    intro e he
    rcases List.mem_append.mp he with he | he
    · exact (h.received e he).trans hle
    · exact hpage.le_advance s.cursor he
  refine ⟨hordered, h.ack_file, h.acked.trans hle, h.last_kept, fun e he => ?_, ?_, ?_, ?_, hreceived,
    fun e he hcursor => ?_⟩
  · exact (h.dropped e he).imp_right fun hrest => hrest.imp_left fun hbehind => hbehind.trans hle
  · rcases advance_cases Event.seq s.cursor (page Event.seq s.cursor max (s.process.source s.fs s.cursor))
      with ⟨_, hstay⟩ | ⟨e, he, hmove⟩
    · simp only [hstay]
      exact h.behind
    · simp only [hmove]
      exact h.ordered.lt_counter (hgenuine e he)
  · rw [Increasing, List.pairwise_append]
    exact ⟨h.in_order, hpage, fun e he e' he' => (h.received e he).trans_lt (mem_page he').2⟩
  · intro e he
    exact (List.mem_append.mp he).elim (h.genuine e) (hgenuine e)
  · -- Behind the old cursor nothing is new; above it, the page holds what its source held.
    by_cases hold : e.seq ≤ s.cursor
    · exact (h.no_skip e he hold).imp_left (List.mem_append_left _)
    · have hlater := not_le.mp hold
      refine (h.mem_source he hlater).imp_left fun hmem => List.mem_append_right _ ?_
      exact hsource.mem_page_of_le_advance hmem hlater hcursor

/-- Acknowledging a received number keeps the acknowledged cursor behind the client's. -/
theorem Delivering.set_ack {s s' : Session} (h : Delivering s) {through : U64}
    (hreceived : ∃ e ∈ s.delivered, e.seq = through) (hstep : step s (.set_ack through) = some s') :
    Delivering s' := by
  obtain ⟨e, he, rfl⟩ := hreceived
  have hanchored := h.anchored.set_ack ((h.received e he).trans_lt h.behind) hstep
  simp only [step, Option.some.injEq] at hstep
  subst hstep
  rcases set_ack_cases s.fs s.process e.seq with ⟨_, hsame⟩ | ⟨_, fs, hset, _, _, hlog⟩
  · simp only [hsame]
    exact h
  · have hlogged : logged fs = logged s.fs := by rw [logged, hlog, logged]
    simp only [hset] at hanchored ⊢
    refine ⟨hanchored.ordered, hanchored.ack_file, h.received e he, hanchored.last_kept, ?_, h.behind, h.in_order,
      h.genuine, h.received, h.no_skip⟩
    simp only [hlogged]
    exact h.dropped

/-- A compaction drops what was acknowledged, hence received, or what is too old. -/
theorem Delivering.compact {s s' : Session} (h : Delivering s) (hstep : step s .compact = some s') :
    Delivering s' := by
  have hanchored := h.anchored.compact hstep
  obtain ⟨fs, log, hcompact, _, _, _, hcases⟩ := h.ordered.compact_spec
  rw [hcompact, Option.some.injEq] at hstep
  subst hstep
  have hgone : ∀ e ∈ logged s.fs, e ∉ logged fs → e.seq ≤ s.process.keep_above := by
    intro e he hnot
    rcases hcases with ⟨hsame, _⟩ | ⟨_, hfiltered⟩
    · exact absurd (hsame ▸ he) hnot
    · rw [hfiltered, List.mem_filter, not_and] at hnot
      simpa using hnot he
  refine ⟨hanchored.ordered, hanchored.ack_file, h.acked, hanchored.last_kept, fun e he => ?_, h.behind, h.in_order,
    h.genuine, h.received, fun e he hle => ?_⟩
  · by_cases hlogged : e ∈ logged fs
    · exact Or.inl hlogged
    · right
      rcases h.dropped e he with hold | hbehind | hretired
      · rcases le_max_iff.mp (hgone e hold hlogged) with hacked | haged
        · have hle : e.seq ≤ s.process.ack_through := hacked.trans (Fin.le_def.mpr (Nat.sub_le _ _))
          exact Or.inl (hle.trans h.acked)
        · refine Or.inr (List.mem_append_right _ (List.mem_filter.mpr ⟨hold, ?_⟩))
          exact decide_eq_true ⟨hlogged, haged⟩
      · exact Or.inl hbehind
      · exact Or.inr (List.mem_append_left _ hretired)
  · exact (h.no_skip e he hle).imp_right (List.mem_append_left _)

/-- A restart reads back the log and the acknowledged cursor. -/
theorem Delivering.reopen {s s' : Session} (h : Delivering s) (hstep : step s .reopen = some s') :
    Delivering s' := by
  have hanchored := h.anchored.reopen hstep
  simp only [step, Option.some.injEq] at hstep
  subst hstep
  obtain ⟨_, hlogged⟩ := h.ordered.intact.reopen
  have hopen : (Store.open s.fs).2.ack_through = load_ack s.fs := rfl
  refine ⟨hanchored.ordered, hanchored.ack_file, ?_, hanchored.last_kept, ?_, ?_, h.in_order, h.genuine, h.received,
    h.no_skip⟩
  · simp only [hopen, h.ack_file]
    exact h.acked
  · simp only [hlogged]
    exact h.dropped
  · simp only [h.anchored.next_seq_reopen]
    exact h.behind

theorem step_delivering {s s' : Session} {a : Action} (h : Delivering s) (hdisciplined : Disciplined s a)
    (hstep : step s a = some s') : Delivering s' := by
  cases a with
  | append c => exact h.append hstep
  | poll max => exact h.poll hdisciplined hstep
  | set_ack through => exact h.set_ack hdisciplined hstep
  | compact => exact h.compact hstep
  | reopen => exact h.reopen hstep

/-- A client that polls from its cursor and acknowledges only what it received is sent
every event once and in order, whatever appends, compactions and restarts come between. -/
theorem disciplined_poller_delivered_once {actions : List Action} {s : Session}
    (hrun : machine.Run step .init actions s) (hdisciplined : machine.Along step Disciplined .init actions) :
    DeliveredOnce s :=
  (hrun.invariant_along Delivering (fun _ _ _ h hd hstep => step_delivering h hd hstep) hdisciplined
    .init).deliveredOnce

/-- Two events, polled one at a time with an acknowledgement and a restart in between. -/
def politeRun : List Action :=
  [.append .sample, .poll 1, .set_ack 1, .reopen, .append { Call.sample with ts := [] }, .poll 5]

theorem disciplined_poller_delivered_once_restart :
    ∃ s, machine.Run step .init politeRun s ∧ s.delivered.length = 2 ∧ DeliveredOnce s := by
  refine ⟨_, rfl, rfl, disciplined_poller_delivered_once (show machine.Run step .init politeRun _ from rfl) ?_⟩
  refine .cons trivial rfl (.cons le_rfl rfl (.cons ?_ rfl (.cons trivial rfl (.cons trivial rfl
    (.cons ?_ rfl trivial)))))
  · exact ⟨_, List.mem_singleton_self _, rfl⟩
  · show 1 ≤ 5
    decide

end yt_websub.store.lifecycle
