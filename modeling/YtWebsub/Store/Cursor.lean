import YtWebsub.Store.Sequence

open rust rust.utf8 rust.text rust.num rust.fs
open yt_websub.util
open paging

namespace yt_websub.store

/-- The number of the first event in the window, or the next number where it is empty. -/
def Store.recent_front (s : Store) : U64 :=
  (s.recent.head?.map Event.seq).getD s.next_seq

/-- `events_after` as a release build computes it: `after + 1` wraps around. -/
def Store.events_after_wrapping (fs : FileSystem) (s : Store) (after : U64) (max : Nat) : List Event :=
  if s.recent_front ≤ after + 1 then (s.recent.filter fun e => after < e.seq).take max
  else collect_after after max ((fs.read events_path).elim [] readLines) []

/-- A build that checks for overflow differs at the last cursor only, where it panics. -/
theorem events_after_eq_some (fs : FileSystem) (s : Store) (after : U64) (max : Nat) :
    s.events_after fs after max = if after = U64.MAX then none else some (s.events_after_wrapping fs after max) := by
  have hsucc : (after + 1).val = (after.val + 1) % 2 ^ 64 := Fin.val_add ..
  unfold Store.events_after
  by_cases hmax : after = U64.MAX
  · rw [if_pos hmax, hmax]
    rfl
  · have hroom : after.val + 1 < 2 ^ 64 := by
      have hlt := after.isLt
      rw [Fin.ext_iff] at hmax
      simp only [U64.MAX] at hmax
      omega
    have hnext : (⟨after.val + 1, hroom⟩ : U64) = after + 1 := by
      rw [Fin.ext_iff, hsucc, Nat.mod_eq_of_lt hroom]
    rw [if_neg hmax, checked_add_of_lt hroom, hnext]
    exact (apply_ite some ..).symm

/-- A limit of zero counts as one: the file loop tests it after a push. -/
theorem collect_after_zero (after : U64) (lines : List (Option Text)) :
    collect_after after 0 lines [] = collect_after after 1 lines [] := by
  induction lines with
  | nil => rfl
  | cons line lines ih =>
    cases line with
    | none => rfl
    | some line =>
      rw [collect_after, collect_after]
      cases parse_line line with
      | none => exact ih
      | some e =>
        simp only [List.nil_append, List.length_singleton, Nat.zero_le, le_refl, if_true]
        split
        · rfl
        · exact ih

/-- A poll that reads the file returns the first later events, and at least one. -/
theorem events_after_file {fs : FileSystem} {s : Store} {after : U64} (h : ¬ s.recent_front ≤ after + 1) (limit : Nat) :
    s.events_after_wrapping fs after limit = page Event.seq after (max 1 limit) (logged fs) := by
  have hread : ∀ limit, 0 < limit → collect_after after limit ((fs.read events_path).elim [] readLines) [] =
      page Event.seq after limit (logged fs) := by
    intro limit hpos
    rw [collect_after_eq after _ [] hpos, logged, page]
    cases fs.read events_path <;> rfl
  rw [Store.events_after_wrapping, if_neg h]
  cases limit with
  | zero => exact (collect_after_zero ..).trans (hread 1 Nat.one_pos)
  | succ limit =>
    rw [hread _ limit.succ_pos, Nat.max_eq_right (by omega)]

theorem events_after_window {s : Store} {after : U64} (h : s.recent_front ≤ after + 1) (fs : FileSystem)
    (limit : Nat) : s.events_after_wrapping fs after limit = page Event.seq after limit s.recent :=
  if_pos h

namespace lifecycle

/-- The log and the window are ends of one history numbered in order: what a store keeps
even where a restart on an emptied log starts a new history. -/
def Numbered (fs : FileSystem) (store : Store) : Prop :=
  ∃ history, Ordered { Session.init with fs, process := store, history }

theorem Ordered.numbered {s : Session} (h : Ordered s) : Numbered s.fs s.process :=
  ⟨s.history, h.handle, h.file, h.kept, h.window, h.keys, h.increasing, h.positive, h.counter⟩

theorem Numbered.intact {fs : FileSystem} {store : Store} (h : Numbered fs store) : Intact fs store := by
  obtain ⟨history, hordered⟩ := h
  exact hordered.intact

/-- An append is suppressed and changes nothing, or adds its event under the next number. -/
theorem Numbered.call {fs fs' : FileSystem} {store store' : Store} (h : Numbered fs store) {c : Call}
    {seq : Option U64} (hcall : store.call fs c none = (fs', store', .ok seq)) :
    (seq = none ∧ fs' = fs ∧ store' = store) ∨
      (seq = some store.next_seq ∧ Numbered fs' store' ∧ logged fs' = logged fs ++ [store.event c]) := by
  obtain ⟨_, rfl, rfl, hnone⟩ | ⟨_, next_seq, hadd, rfl, hseq, hintact, hlogged, _⟩ := h.intact.call hcall (by simp)
  · exact Or.inl ⟨AppendResult.ok.inj hnone, rfl, rfl⟩
  · obtain ⟨history, hordered⟩ := h
    exact Or.inr ⟨AppendResult.ok.inj hseq, ⟨_, hordered.append hadd hintact hlogged⟩, hlogged⟩

/-- What leaves the log alone and changes at most the acknowledged cursor. -/
theorem Numbered.unmoved {fs fs' : FileSystem} {store : Store} (h : Numbered fs store)
    (hentries : fs'.entries events_path = fs.entries events_path)
    (hread : fs'.read events_path = fs.read events_path) (ack_through : U64) :
    Numbered fs' { store with ack_through } ∧ logged fs' = logged fs := by
  obtain ⟨history, hordered⟩ := h
  have hbytes : logBytes fs' = logBytes fs := by rw [logBytes, hread, logBytes]
  have hlogged : logged fs' = logged fs := by rw [logged_eq, hbytes, logged_eq]
  refine ⟨⟨history, hentries.trans hordered.handle, ?_, ?_, hordered.window, hordered.keys, hordered.increasing,
    hordered.positive, hordered.counter⟩, hlogged⟩
  · change logBytes fs' = render (logged fs')
    rw [hbytes, hlogged]
    exact hordered.file
  · change logged fs' <:+ history
    rw [hlogged]
    exact hordered.kept

/-- A log that is replaced by an end of it. -/
theorem Numbered.replaced {fs fs' : FileSystem} {store : Store} (h : Numbered fs store) {log : Nat}
    (hhandle : fs'.entries events_path = some log) (hfile : logBytes fs' = render (logged fs'))
    (hkept : logged fs' <:+ logged fs) : Numbered fs' { store with log } := by
  obtain ⟨history, hordered⟩ := h
  exact ⟨history, hordered.compact hhandle hfile hkept []⟩

/-- What a compaction keeps is an end of the log. -/
theorem Numbered.filter_suffix {fs : FileSystem} {store : Store} (h : Numbered fs store) (bound : U64) :
    (logged fs).filter (fun e => bound < e.seq) <:+ logged fs := by
  obtain ⟨history, hordered⟩ := h
  exact (hordered.increasing.of_suffix hordered.kept).filter_suffix bound

/-- A restart reads the log back; on a log without events it starts a new history. -/
theorem Numbered.reopen {fs : FileSystem} {store : Store} (h : Numbered fs store) :
    Numbered (Store.open fs).1 (Store.open fs).2 ∧ logged (Store.open fs).1 = logged fs := by
  obtain ⟨hintact, hlogged⟩ := h.intact.reopen
  obtain ⟨history, hordered⟩ := h
  refine ⟨?_, hlogged⟩
  by_cases hempty : logged fs = []
  · obtain ⟨hcounter, hwindow, hkeys⟩ := open_spec fs
    rw [hempty] at hcounter hwindow
    refine ⟨[], hintact.handle, hintact.file, ?_, ?_, hkeys.subset, List.Pairwise.nil, by simp, ?_⟩
    · exact (hlogged.trans hempty).symm ▸ List.suffix_rfl
    · exact hwindow.symm ▸ List.suffix_rfl
    · change (Store.open fs).2.next_seq.val = 1
      rw [hcounter]
      rfl
  · exact ⟨history, hordered.reopen (Or.inr hempty)⟩

theorem step_numbered {s s' : Session} {a : Action} (h : Numbered s.fs s.process) (hstep : step s a = some s') :
    Numbered s'.fs s'.process := by
  cases a with
  | append c =>
    simp only [step] at hstep
    split at hstep
    · rename_i hcall
      cases hstep
      obtain ⟨hnone, _⟩ | ⟨_, hnumbered, _⟩ := h.call hcall
      · cases hnone
      · exact hnumbered
    · rename_i hcall
      cases hstep
      obtain ⟨_, rfl, rfl⟩ | ⟨hsome, _⟩ := h.call hcall
      · exact h
      · cases hsome
    · cases hstep
  | poll max =>
    simp only [step] at hstep
    split at hstep
    · cases hstep
    · cases hstep
      exact h
  | set_ack through =>
    simp only [step, Option.some.injEq] at hstep
    obtain ⟨fs, ack_through, hset, hentries, hread⟩ := set_ack_unmoved s.fs s.process through none
    rw [hset] at hstep
    subst hstep
    exact (h.unmoved hentries hread ack_through).1
  | compact =>
    obtain ⟨fs, log, hcompact, hintact, _, hcases⟩ := h.intact.compact
    simp only [step, hcompact, Option.some.injEq] at hstep
    subst hstep
    refine h.replaced hintact.handle hintact.file ?_
    obtain ⟨hsame, _⟩ | ⟨_, hfiltered⟩ := hcases
    · rw [hsame]
    · rw [hfiltered]
      exact h.filter_suffix _
  | reopen =>
    simp only [step, Option.some.injEq] at hstep
    subst hstep
    exact h.reopen.1

/-- What a poll returns is a page: at most `max` events, all later than the cursor, in
order, and the first of what a poll with room for the whole log returns. -/
structure PagedExactly (s : Session) (after : U64) (max : Nat) : Prop where
  bounded : (s.process.events_after_wrapping s.fs after max).length ≤ max
  later : ∀ e ∈ s.process.events_after_wrapping s.fs after max, after < e.seq
  in_order : Increasing Event.seq (s.process.events_after_wrapping s.fs after max)
  first : ∀ n, (logged s.fs).length < n → s.process.events_after_wrapping s.fs after max =
    (s.process.events_after_wrapping s.fs after n).take max

/-- A poll served from the file asks for at least one event or finds none, and one served
from the window asks for, or finds, no more than fits the whole log and one event. -/
def WithinLog (s : Session) (after : U64) (max : Nat) : Prop :=
  if s.process.recent_front ≤ after + 1 then
    max ≤ (logged s.fs).length + 1 ∨
      (s.process.recent.filter fun e => after < e.seq).length ≤ (logged s.fs).length + 1
  else 1 ≤ max ∨ ∀ e ∈ logged s.fs, e.seq ≤ after

instance (s : Session) (after : U64) (max : Nat) : Decidable (WithinLog s after max) :=
  inferInstanceAs (Decidable (ite ..))

/-- The window holds the pages of a poll that it serves. -/
theorem Numbered.window_paged {s : Session} (h : Numbered s.fs s.process) {after : U64}
    (hwindow : s.process.recent_front ≤ after + 1) (limit : Nat) :
    PagedExactly s after limit ↔ limit ≤ (logged s.fs).length + 1 ∨
      (s.process.recent.filter fun e => after < e.seq).length ≤ (logged s.fs).length + 1 := by
  obtain ⟨history, hordered⟩ := h
  have hread := events_after_window hwindow s.fs
  constructor
  · intro hpaged
    have hfirst := hpaged.first _ (Nat.lt_succ_self _)
    rw [hread, hread, take_page, page_eq_page_iff] at hfirst
    omega
  · intro hfits
    refine ⟨?_, ?_, ?_, fun n hn => ?_⟩
    · rw [hread]
      exact List.length_take_le ..
    · intro e he
      rw [hread] at he
      exact (mem_page he).2
    · rw [hread]
      exact (hordered.increasing.of_suffix hordered.window).page after limit
    · rw [hread, hread, take_page, page_eq_page_iff]
      omega

/-- The file holds the pages of a poll that it serves, if they have room for an event. -/
theorem Numbered.file_paged {s : Session} (h : Numbered s.fs s.process) {after : U64}
    (hfile : ¬ s.process.recent_front ≤ after + 1) (limit : Nat) :
    PagedExactly s after limit ↔ 1 ≤ limit ∨ ∀ e ∈ logged s.fs, e.seq ≤ after := by
  obtain ⟨history, hordered⟩ := h
  have hread : ∀ limit, s.process.events_after_wrapping s.fs after limit =
      page Event.seq after (max 1 limit) (logged s.fs) := events_after_file hfile
  have hnone : (∀ e ∈ logged s.fs, e.seq ≤ after) ↔ ((logged s.fs).filter fun e => after < e.seq).length = 0 := by
    simp
  rw [hnone]
  constructor
  · intro hpaged
    have hbounded := hpaged.bounded
    rw [hread, length_page] at hbounded
    omega
  · intro hroom
    refine ⟨?_, ?_, ?_, fun n hn => ?_⟩
    · rw [hread, length_page]
      omega
    · intro e he
      rw [hread] at he
      exact (mem_page he).2
    · rw [hread]
      exact (hordered.increasing.of_suffix hordered.kept).page after _
    · have hfits := List.length_filter_le (fun e : Event => decide (after < e.seq)) (logged s.fs)
      rw [hread, hread, take_page, page_eq_page_iff]
      omega

/-- A poll is paged exactly, except that a limit of zero still reads one event from the
file, and that the window may hold more events than a compacted log. -/
theorem paging_exact_iff {actions : List Action} {s : Session} (hrun : machine.Run step .init actions s)
    (after : U64) (max : Nat) : PagedExactly s after max ↔ WithinLog s after max := by
  have hnumbered := hrun.invariant (fun s => Numbered s.fs s.process) (fun _ _ _ => step_numbered) Ordered.init.numbered
  unfold WithinLog
  split
  · rename_i hwindow
    exact hnumbered.window_paged hwindow max
  · rename_i hfile
    exact hnumbered.file_paged hfile max

/-- Numbers along an ordered list grow by one at least. -/
theorem add_length_le {first last : Event} {rest : List Event} (h : Increasing Event.seq (first :: rest))
    (hlast : (first :: rest).getLast? = some last) : first.seq.val + rest.length ≤ last.seq.val := by
  induction rest generalizing first with
  | nil =>
    rw [List.getLast?_singleton, Option.some.injEq] at hlast
    exact hlast ▸ le_rfl
  | cons next rest ih =>
    obtain ⟨hlater, hrest⟩ := List.pairwise_cons.mp h
    have hlt := hlater next List.mem_cons_self
    have hle := ih hrest (by rwa [List.getLast?_cons_cons] at hlast)
    rw [Fin.lt_def] at hlt
    rw [List.length_cons]
    omega

/-- Calls for different videos, with titles of this length. -/
def filling (count title : Nat) : List Call :=
  (List.range count).map fun i => { Call.sample with video_id := to_string i, title := List.replicate title 'x' }

theorem filling_nodup (count title : Nat) : ((filling count title).map Call.key).Nodup := by
  rw [filling, List.map_map]
  apply (List.nodup_map_iff_inj_on (List.nodup_range)).mpr
  intro i _ j _ hkey
  have hdigits : to_string i = to_string j := List.append_cancel_right (List.append_cancel_right hkey)
  have hvalue := congrArg parseDigits hdigits
  rw [parseDigits_to_string, parseDigits_to_string, Option.some.injEq] at hvalue
  exact hvalue

/-- A store that has been sent more events than its window holds. -/
theorem exists_filled {count : Nat} (title : Nat) (hfull : RECENT_CAP < count) (hroom : count + 1 < 2 ^ 64) :
    ∃ s front, machine.Run step .init ((filling count title).map .append) s ∧ Ordered s ∧
      logged s.fs = s.history ∧ s.process.next_seq.val = count + 1 ∧ s.process.recent.head? = some front ∧
      2 ≤ front.seq.val ∧ front.seq.val + RECENT_CAP ≤ count + 1 ∧ count * title ≤ (logBytes s.fs).length := by
  have hcount : (filling count title).length = count := by rw [filling, List.length_map, List.length_range]
  have hfirst : Session.init.process.next_seq.val = 1 := rfl
  obtain ⟨s, es, hrun, hordered, hlength, hnext, hhistory, hlogged, hrecent, hbytes⟩ :=
    Ordered.init.append_all (filling_nodup count title) (by rw [hcount, hfirst]; omega)
  have hwindow : s.process.recent = es.drop (count - RECENT_CAP) := by
    rw [hrecent, ← hcount, ← hlength]
    exact foldl_push_recent es
  have htitles : ((filling count title).map fun c => c.title.length).sum = count * title := by
    rw [filling, List.map_map]
    simp [Function.comp_def]
  cases hdrop : es.drop (count - RECENT_CAP) with
  | nil =>
    have hshort := List.drop_eq_nil_iff.mp hdrop
    simp only [RECENT_CAP] at hshort hfull
    omega
  | cons front rest =>
    have hsplit : s.history = es.take (count - RECENT_CAP) ++ front :: rest := by
      rw [← hdrop, List.take_append_drop]
      exact hhistory
    have hrest : rest.length + 1 = RECENT_CAP := by
      have hlen := congrArg List.length hdrop
      rw [List.length_drop, List.length_cons] at hlen
      omega
    have hincreasing := hordered.increasing
    have hcounter := hordered.counter
    rw [hsplit, Increasing, List.pairwise_append] at hincreasing
    refine ⟨s, front, hrun, hordered, hlogged.trans hhistory.symm, by omega, by rw [hwindow, hdrop]; rfl, ?_, ?_, ?_⟩
    · -- An older event has a smaller number.
      cases holder : es.take (count - RECENT_CAP) with
      | nil =>
        have hlen := congrArg List.length holder
        rw [List.length_take, List.length_nil] at hlen
        omega
      | cons old older =>
        have hpositive := hordered.positive old (by rw [hsplit, holder]; simp)
        have hlt := hincreasing.2.2 old (by rw [holder]; simp) front List.mem_cons_self
        rw [Fin.lt_def] at hlt
        omega
    · cases hlast : (front :: rest).getLast? with
      | none => cases List.getLast?_eq_none_iff.mp hlast
      | some last =>
        have hle := add_length_le hincreasing.2.1 hlast
        rw [hsplit, List.getLast?_append_of_ne_nil _ (by simp), hlast, Option.map_some, Option.getD_some] at hcounter
        omega
    · rw [htitles] at hbytes
      omega

theorem recent_front_of_head {s : Store} {front : Event} (h : s.recent.head? = some front) :
    s.recent_front = front.seq := by
  rw [Store.recent_front, h]
  rfl

/-- A poll from the first cursor reads the file once the window has moved on. -/
theorem not_from_window {s : Store} {front : Event} (h : s.recent.head? = some front) (htwo : 2 ≤ front.seq.val) :
    ¬ s.recent_front ≤ 0 + 1 := by
  rw [recent_front_of_head h, Fin.le_def]
  have hone : (0 + 1 : U64).val = 1 := rfl
  omega

/-- With a limit of zero a poll of the file still returns the first event. -/
theorem zero_limit_exceeded :
    ∃ actions s, machine.Run step .init actions s ∧ ¬ PagedExactly s 0 0 := by
  have hfull : RECENT_CAP < RECENT_CAP + 1 := Nat.lt_succ_self _
  obtain ⟨s, front, hrun, hordered, hlogged, _, hfront, htwo, _⟩ := exists_filled 0 hfull (by decide)
  refine ⟨_, s, hrun, fun hpaged => ?_⟩
  have hmem : front ∈ logged s.fs := hlogged ▸ hordered.window.subset (List.mem_of_head? hfront)
  have hnone := ((hordered.numbered.file_paged (not_from_window hfront htwo) 0).mp hpaged).resolve_left (by omega)
  have hle := hnone front hmem
  rw [Fin.le_def] at hle
  have hzero : (0 : U64).val = 0 := rfl
  omega

theorem paging_exact_iff_restart :
    ∃ s, machine.Run step .init restartRun s ∧ PagedExactly s 1 2000 := by
  refine ⟨_, rfl, (paging_exact_iff (show machine.Run step .init restartRun _ from rfl) 1 2000).mpr ?_⟩
  decide +kernel

end lifecycle

end yt_websub.store
