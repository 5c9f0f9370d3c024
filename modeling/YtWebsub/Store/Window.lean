import YtWebsub.Store.Cursor
import YtWebsub.Store.Delivery

open rust rust.utf8 rust.text rust.num rust.fs
open yt_websub.util
open paging

namespace yt_websub.store.lifecycle

/-- The window and the file agree: from an earlier cursor a poll with room for the whole
log returns what it returns from a later one, and what lies between. -/
structure PollsAgree (s : Session) : Prop where
  pages : ∀ a b max, a ≤ b → (logged s.fs).length ≤ max →
    (s.process.events_after_wrapping s.fs a max).filter (fun e => b < e.seq) =
      s.process.events_after_wrapping s.fs b max
  visible : ∀ a b max, a ≤ b → (logged s.fs).length ≤ max →
    ∀ e ∈ s.process.events_after_wrapping s.fs b max, e ∈ s.process.events_after_wrapping s.fs a max

/-- The polls agree after the step. -/
def LeavesPollsAgreeing (s : Session) (a : Action) : Prop :=
  ∀ s', step s a = some s' → PollsAgree s'

/-- A compaction that rewrites the log drops no event of the window. -/
def SparesWindow (s : Session) : Action → Prop
  | .compact => (logBytes s.fs).length < COMPACT_BYTES ∨ ∀ e ∈ s.process.recent, s.process.keep_above < e.seq
  | _ => True

/-- The log reaches back as far as the window. -/
def WindowLogged (s : Session) : Prop :=
  s.process.recent <:+ logged s.fs

theorem Ordered.lt_recent_front {s : Session} (h : Ordered s) {older : List Event}
    (hsplit : older ++ s.process.recent = logged s.fs) {e : Event} (he : e ∈ older) :
    e.seq < s.process.recent_front := by
  unfold Store.recent_front
  cases hrecent : s.process.recent with
  | nil => exact h.lt_counter (h.kept.subset (hsplit ▸ List.mem_append_left _ he))
  | cons front rest =>
    have hincreasing := h.increasing.of_suffix h.kept
    rw [← hsplit, hrecent, Increasing, List.pairwise_append] at hincreasing
    exact hincreasing.2.2 e he front List.mem_cons_self

/-- Where the log covers the window, a poll is a page of the log whatever it reads. -/
theorem Ordered.events_after_covered {s : Session} (h : Ordered s) (hcovered : WindowLogged s) (after : U64)
    {max : Nat} (hmax : (logged s.fs).length ≤ max) :
    s.process.events_after_wrapping s.fs after max = (logged s.fs).filter fun e => after < e.seq := by
  have hfits := List.length_filter_le (fun e : Event => decide (after < e.seq)) (logged s.fs)
  by_cases hwindow : s.process.recent_front ≤ after + 1
  · obtain ⟨older, hsplit⟩ := hcovered
    have hsucc : (after + 1).val ≤ after.val + 1 := by
      rw [Fin.val_add]
      exact Nat.mod_le ..
    -- Everything older than the window lies behind a cursor that the window serves.
    have holder : older.filter (fun e => after < e.seq) = [] := by
      apply List.filter_eq_nil_iff.mpr
      intro e he
      have hlt := h.lt_recent_front hsplit he
      rw [Fin.lt_def] at hlt
      rw [Fin.le_def] at hwindow
      rw [decide_eq_true_eq, Fin.lt_def]
      omega
    rw [← hsplit, List.filter_append, holder, List.nil_append] at hfits ⊢
    rw [events_after_window hwindow, page, List.take_of_length_le]
    rw [hsplit] at hfits
    omega
  · rw [events_after_file hwindow, page, List.take_of_length_le (by omega)]

theorem Ordered.pollsAgree {s : Session} (h : Ordered s) (hcovered : WindowLogged s) : PollsAgree s := by
  have hpages : ∀ a b max, a ≤ b → (logged s.fs).length ≤ max →
      (s.process.events_after_wrapping s.fs a max).filter (fun e => b < e.seq) =
        s.process.events_after_wrapping s.fs b max := by
    intro a b max hab hmax
    rw [h.events_after_covered hcovered a hmax, h.events_after_covered hcovered b hmax, List.filter_filter]
    apply List.filter_congr
    intro e _
    rw [← Bool.decide_and]
    exact decide_eq_decide.mpr ⟨And.left, fun hb => ⟨hb, hab.trans_lt hb⟩⟩
  refine ⟨hpages, fun a b max hab hmax e he => ?_⟩
  rw [← hpages a b max hab hmax] at he
  exact List.mem_of_mem_filter he

/-- From the cursor before its front a poll returns the whole window. -/
theorem Ordered.events_after_front {s : Session} (h : Ordered s) {front : Event}
    (hhead : s.process.recent.head? = some front) {max : Nat} (hmax : s.process.recent.length ≤ max) :
    s.process.events_after_wrapping s.fs (saturating_sub front.seq 1) max = s.process.recent := by
  have hpositive := h.positive front (h.window.subset (List.mem_of_head? hhead))
  have hserved : s.process.recent_front ≤ saturating_sub front.seq 1 + 1 := by
    have hlt := front.seq.isLt
    have hone : (1 : U64).val = 1 := rfl
    rw [recent_front_of_head hhead, Fin.le_def, Fin.val_add, saturating_sub_val, hone, Nat.mod_eq_of_lt (by omega)]
    omega
  have hall : s.process.recent.filter (fun e => saturating_sub front.seq 1 < e.seq) = s.process.recent := by
    refine List.filter_eq_self.mpr fun e he => decide_eq_true ?_
    have hincreasing := h.increasing.of_suffix h.window
    obtain ⟨rest, hrest⟩ := List.head?_eq_some_iff.mp hhead
    rw [hrest] at he hincreasing
    rw [Fin.lt_def, saturating_sub_val]
    obtain rfl | he := List.mem_cons.mp he
    · omega
    · have hlater := (List.pairwise_cons.mp hincreasing).1 e he
      rw [Fin.lt_def] at hlater
      omega
  rw [events_after_window hserved, page, hall, List.take_of_length_le hmax]

/-- Polls agree only where the log covers the window: what a compaction left in the
window is seen from some cursors and not from others. -/
theorem Anchored.windowLogged {s : Session} (h : Anchored s) (hagree : PollsAgree s) : WindowLogged s := by
  obtain hcovered | hcut := List.suffix_or_suffix_of_suffix h.ordered.window h.ordered.kept
  · exact hcovered
  by_contra hnot
  have hlt : (logged s.fs).length < s.process.recent.length := by
    refine lt_of_le_of_ne hcut.length_le fun hlength => hnot ?_
    rw [WindowLogged, hcut.eq_of_length hlength]
  have hne : (logged s.fs).length ≠ 0 := by
    intro hnone
    have hempty := h.last_kept.resolve_right (not_not.mpr (List.length_eq_zero_iff.mp hnone))
    have hwindow : s.process.recent = [] := List.suffix_nil.mp (hempty ▸ h.ordered.window)
    rw [hwindow, List.length_nil] at hlt
    omega
  cases hrecent : s.process.recent with
  | nil =>
    rw [hrecent] at hlt
    cases hlt
  | cons front rest =>
    have hhead : s.process.recent.head? = some front := by rw [hrecent]; rfl
    have hfront := recent_front_of_head hhead
    have hincreasing := h.ordered.increasing.of_suffix h.ordered.window
    rw [hrecent] at hincreasing
    obtain ⟨hlater, _⟩ := List.pairwise_cons.mp hincreasing
    have hpositive := h.ordered.positive front (h.ordered.window.subset (List.mem_of_head? hhead))
    by_cases htwo : 2 ≤ front.seq.val
    · -- From the first cursor the file is read, from the one before the front the whole window.
      have hsame := hagree.pages 0 (saturating_sub front.seq 1) s.process.recent.length (Fin.zero_le _) hlt.le
      rw [events_after_file (not_from_window hhead htwo), h.ordered.events_after_front hhead le_rfl] at hsame
      have hlength := congrArg List.length hsame
      have hfile := List.length_filter_le (fun e : Event => decide (saturating_sub front.seq 1 < e.seq))
        (page Event.seq 0 (max 1 s.process.recent.length) (logged s.fs))
      rw [length_page] at hfile
      have hlog := List.length_filter_le (fun e : Event => decide (0 < e.seq)) (logged s.fs)
      omega
    · -- The window serves both cursors, and its front takes a place in the first page only.
      have hone : front.seq = 1 := Fin.ext (by
        have hval : (1 : U64).val = 1 := rfl
        omega)
      have hserved : s.process.recent_front ≤ 0 + 1 := hfront.trans_le hone.le
      have hserved' : s.process.recent_front ≤ 1 + 1 := by
        rw [hfront, hone]
        decide
      have hsame := hagree.pages 0 1 (logged s.fs).length (Fin.zero_le _) le_rfl
      have hfirst : (front :: rest).filter (fun e => 0 < e.seq) = front :: rest := by
        refine List.filter_eq_self.mpr fun e he => decide_eq_true ?_
        exact Fin.lt_def.mpr (h.ordered.positive e (h.ordered.window.subset (hrecent ▸ he)))
      have hdrops : ∀ l : List Event, (front :: l).filter (fun e => 1 < e.seq) = l.filter fun e => 1 < e.seq :=
        fun l => List.filter_cons_of_neg (by simp [hone])
      have hsecond : (front :: rest).filter (fun e => 1 < e.seq) = rest := by
        rw [hdrops, List.filter_eq_self]
        exact fun e he => decide_eq_true (hone ▸ hlater e he)
      obtain ⟨n, hn⟩ := Nat.exists_eq_succ_of_ne_zero hne
      rw [events_after_window hserved, events_after_window hserved', hrecent, page, page, hfirst, hsecond, hn,
        List.take_succ_cons, hdrops] at hsame
      have hlength := congrArg List.length hsame
      have hle := List.length_filter_le (fun e : Event => decide (1 < e.seq)) (rest.take n)
      rw [List.length_take] at hlength hle
      rw [hrecent, List.length_cons] at hlt
      omega

/-- The log keeps covering the window, unless a compaction drops one of its events. -/
theorem step_windowLogged {s s' : Session} {a : Action} (h : Anchored s) (hcovered : WindowLogged s)
    (hstep : step s a = some s') : WindowLogged s' ↔ SparesWindow s a := by
  cases a with
  | append c =>
    refine iff_of_true ?_ trivial
    obtain rfl | ⟨_, fs, next_seq, _, rfl, _, hlogged, _⟩ := step_append h.ordered.intact hstep
    · exact hcovered
    · rw [WindowLogged, hlogged]
      exact (push_recent_suffix _ _).trans (suffix_append_right hcovered _)
  | poll max =>
    refine iff_of_true ?_ trivial
    simp only [step] at hstep
    split at hstep
    · cases hstep
    · rw [Option.some.injEq] at hstep
      exact hstep ▸ hcovered
  | set_ack through =>
    refine iff_of_true ?_ trivial
    simp only [step, Option.some.injEq] at hstep
    obtain ⟨fs, ack_through, hset, _, hlogged, _⟩ := h.ordered.intact.set_ack through
    rw [hset] at hstep
    subst hstep
    rw [WindowLogged, hlogged]
    exact hcovered
  | compact =>
    obtain ⟨fs, log, hcompact, _, _, _, hcases⟩ := h.ordered.compact_spec
    rw [hcompact, Option.some.injEq] at hstep
    subst hstep
    change s.process.recent <:+ logged fs ↔ _
    rcases hcases with ⟨hsame, hwhy⟩ | ⟨hlarge, hfiltered⟩
    · rw [hsame]
      exact iff_of_true hcovered (hwhy.imp_right fun hall e he => hall e (hcovered.subset he))
    · rw [hfiltered]
      constructor
      · exact fun hsuffix => Or.inr fun e he => of_decide_eq_true (List.mem_filter.mp (hsuffix.subset he)).2
      · intro hspares
        have hall := hspares.resolve_left (by omega)
        rw [← List.filter_eq_self.mpr fun e he => decide_eq_true (hall e he)]
        exact hcovered.filter _
  | reopen =>
    refine iff_of_true ?_ trivial
    simp only [step, Option.some.injEq] at hstep
    subst hstep
    rw [WindowLogged, (open_spec s.fs).2.1, h.ordered.intact.reopen.2]
    exact List.drop_suffix _ _

/-- The polls of every cursor agree in every state of a run exactly when no compaction
drops an event that is still in the window. -/
theorem polls_agree_iff {actions : List Action} {s : Session} (hrun : machine.Run step .init actions s)
    (hacks : machine.Along step AcksAssigned .init actions) :
    (PollsAgree .init ∧ machine.Along step LeavesPollsAgreeing .init actions) ↔
      machine.Along step SparesWindow .init actions := by
  have hinit : WindowLogged .init := List.suffix_rfl
  constructor
  · rintro ⟨_, hagree⟩
    refine hrun.along_imp (fun s => Anchored s ∧ WindowLogged s) ?_ ?_ ⟨.init, hinit⟩ (hacks.and hagree)
    · rintro s a s' ⟨h, hcovered⟩ ⟨hacks, hagree⟩ hstep
      have hanchored := step_anchored h hacks hstep
      exact ⟨hanchored, hanchored.windowLogged (hagree s' hstep)⟩
    · rintro s a s' ⟨h, hcovered⟩ hstep ⟨hacks, hagree⟩
      exact (step_windowLogged h hcovered hstep).mp ((step_anchored h hacks hstep).windowLogged (hagree s' hstep))
  · intro hspares
    refine ⟨Ordered.init.pollsAgree hinit, ?_⟩
    refine (hacks.and hspares).of_invariant (fun s => Anchored s ∧ WindowLogged s) ?_ ?_ ⟨.init, hinit⟩
    · rintro s a s' ⟨h, hcovered⟩ ⟨hacks, hspares⟩ hstep
      exact ⟨step_anchored h hacks hstep, (step_windowLogged h hcovered hstep).mpr hspares⟩
    · rintro s a ⟨h, hcovered⟩ ⟨hacks, hspares⟩ s' hstep
      exact (step_anchored h hacks hstep).ordered.pollsAgree ((step_windowLogged h hcovered hstep).mpr hspares)

/-- An event that is acknowledged, a compaction and a restart. -/
def acknowledgedRun : List Action :=
  [.append .sample, .set_ack 1, .compact, .reopen]

theorem polls_agree_iff_acknowledged :
    ∃ s, machine.Run step .init acknowledgedRun s ∧ machine.Along step LeavesPollsAgreeing .init acknowledgedRun := by
  refine ⟨_, rfl, ((polls_agree_iff (show machine.Run step .init acknowledgedRun _ from rfl) ?_).mpr ?_).2⟩
  · exact .cons trivial rfl (.cons (show (1 : U64) ≤ 1 from le_rfl) rfl (.cons trivial rfl (.cons trivial rfl trivial)))
  · exact .cons trivial rfl (.cons trivial rfl (.cons (Or.inl (by decide +kernel)) rfl (.cons trivial rfl trivial)))

/-- A store whose log has reached the threshold, with everything acknowledged and a
window that begins below the compaction bound. -/
theorem exists_compactable :
    ∃ (calls : List Call) (through : U64) (s : Session) (front : Event),
      machine.Run step .init (calls.map .append ++ [.set_ack through]) s ∧
      machine.Along step AcksAssigned .init (calls.map .append ++ [.set_ack through]) ∧ Ordered s ∧
      COMPACT_BYTES ≤ (logBytes s.fs).length ∧ s.process.recent.head? = some front ∧ 2 ≤ front.seq.val ∧
      front ∈ logged s.fs ∧ front.seq ≤ s.process.keep_above := by
  have hfull : RECENT_CAP < 3001 := by decide
  obtain ⟨s, front, hrun, hordered, hlogged, hnext, hfront, htwo, hbehind, hbytes⟩ :=
    exists_filled 3000 hfull (by decide)
  generalize filling 3001 3000 = calls at hrun
  obtain ⟨acked, hack, hthrough, _, hrecent, _, hsame⟩ := set_ack_spec s s.process.max_seq
  have hacked := step_ordered (a := .set_ack s.process.max_seq) hordered trivial hack
  have happends : machine.Along step AcksAssigned .init (calls.map .append) := by
    refine .of_forall (fun a ha s => ?_) _
    obtain ⟨c, _, rfl⟩ := List.mem_map.mp ha
    trivial
  refine ⟨calls, s.process.max_seq, acked, front, machine.run_append.mpr ⟨s, hrun, machine.run_singleton.mpr hack⟩,
    happends.join hrun (.cons le_rfl hack trivial), hacked, ?_, hrecent ▸ hfront, htwo, ?_, le_max_of_le_left ?_⟩
  · rw [hsame]
    simp only [COMPACT_BYTES]
    omega
  · rw [logged_eq, hsame, ← logged_eq, hlogged]
    exact hordered.window.subset (List.mem_of_head? hfront)
  · rw [Fin.le_def, Store.max_seq, saturating_sub_val] at hthrough
    rw [Fin.le_def, saturating_sub_val]
    simp only [COMPACT_MARGIN]
    simp only [RECENT_CAP] at hbehind
    omega

/-- After a compaction that cuts into the window, an event is seen from a cursor in the
window and not from one before it. -/
theorem compaction_hides_window :
    ∃ actions s a b e, machine.Run step .init actions s ∧ machine.Along step AcksAssigned .init actions ∧ a ≤ b ∧
      ∀ max, s.history.length ≤ max →
        e ∈ s.process.events_after_wrapping s.fs b max ∧ e ∉ s.process.events_after_wrapping s.fs a max := by
  obtain ⟨calls, through, acked, front, hrun, hacks, hordered, hlarge, hfront, htwo, hmem, hbelow⟩ := exists_compactable
  obtain ⟨fs, log, hcompact, _, _, _, hcases⟩ := hordered.compact_spec
  have hgone : front ∉ logged fs := by
    rcases hcases with ⟨_, hsmall | hkept⟩ | ⟨_, hfiltered⟩
    · exact absurd hlarge (not_le.mpr hsmall)
    · exact absurd (hkept front hmem) (not_lt.mpr hbelow)
    · rw [hfiltered]
      exact fun hmem => absurd (of_decide_eq_true (List.mem_filter.mp hmem).2) (not_lt.mpr hbelow)
  obtain ⟨s, hcompact, hrecent, hlogged⟩ : ∃ s, step acked .compact = some s ∧
      s.process.recent = acked.process.recent ∧ logged s.fs = logged fs := ⟨_, hcompact, rfl, rfl⟩
  have hcompacted := step_ordered (a := .compact) hordered trivial hcompact
  rw [← hlogged] at hgone
  rw [← hrecent] at hfront
  have hacks' : machine.Along step AcksAssigned acked [.compact] := .cons trivial hcompact trivial
  refine ⟨calls.map .append ++ [.set_ack through] ++ [.compact], s, 0, saturating_sub front.seq 1, front,
    machine.run_append.mpr ⟨acked, hrun, machine.run_singleton.mpr hcompact⟩, hacks.join hrun hacks',
    Fin.zero_le _, fun max hmax => ⟨?_, ?_⟩⟩
  · rw [hcompacted.events_after_front hfront (hcompacted.window.length_le.trans hmax)]
    exact List.mem_of_head? hfront
  · rw [events_after_file (not_from_window hfront htwo)]
    exact fun hmem => hgone (mem_page hmem).1

end yt_websub.store.lifecycle
