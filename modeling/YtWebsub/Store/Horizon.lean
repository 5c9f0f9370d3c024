import YtWebsub.Store.Compaction

open rust rust.utf8 rust.text rust.num rust.fs
open yt_websub.util

namespace yt_websub.store

/-- The line parses as an event above the bound. -/
def isAbove (keep_above : U64) (line : Text) : Bool :=
  (parse_line line).any fun e => keep_above < e.seq

/-- The lines above the bound, wherever they stand. -/
def linesAbove (keep_above : U64) (lines : List (Option Text)) : List Text :=
  lines.reduceOption.filter (isAbove keep_above)

/-- No event above the bound stands after a line that is not UTF-8. -/
def ReadableAbove (keep_above : U64) (bytes : Bytes) : Prop :=
  ∀ line e, some line ∈ (readLines bytes).dropWhile Option.isSome → parse_line line = some e → e.seq ≤ keep_above

/-- The new log consists of the lines of the old one above the bound, and the compaction
has changed nothing else of the store. -/
structure KeepsAbove (fs : FileSystem) (s : Store) (fs' : FileSystem) (s' : Store) : Prop where
  lines : logBytes fs' =
    (linesAbove s.keep_above (readLines (logBytes fs))).flatMap fun line => encode line ++ [10]
  next_seq : s'.next_seq = s.next_seq
  recent : s'.recent = s.recent
  seen : s'.seen = s.seen
  ack_through : s'.ack_through = s.ack_through

/-- The lines that the copy loop keeps are those up to the first one that is not UTF-8. -/
theorem parsedRows_above (keep_above : U64) (lines : List (Option Text)) :
    ((parsedRows lines).filter fun row => keep_above < row.2.seq).map Prod.fst =
      linesAbove keep_above (lines.takeWhile Option.isSome) := by
  induction lines with
  | nil => rfl
  | cons line lines ih =>
    cases line with
    | none => rfl
    | some line =>
      rw [parsedRows, List.takeWhile_cons_of_pos rfl, linesAbove, List.reduceOption_cons_of_some, List.filter_cons]
      cases hparse : parse_line line with
      | none =>
        simp only [isAbove, hparse, Option.any_none, Bool.false_eq_true, if_false]
        exact ih
      | some e =>
        simp only [isAbove, hparse, Option.any_some, decide_eq_true_eq, List.filter_cons]
        split
        · exact congrArg (line :: ·) ih
        · exact ih

/-- A compaction that replaces the log has come to its end, and puts the copied lines in
its place. -/
theorem rewritten_spec {fs fs' : FileSystem} {s s' : Store} {fault : Option CompactFault}
    (hcompact : s.maybe_compact fs fault = (fs', s', true))
    (hrewritten : fs'.entries events_path ≠ fs.entries events_path) :
    logBytes fs' = (copy_lines s.keep_above (readLines (logBytes fs)) [] 0).1 ∧
      ∃ log, s' = { s with log } := by
  obtain ⟨_, htmp, _⟩ := tmp_paths
  obtain ⟨hsame, _⟩ | ⟨_, replaced, tmp, hread, _, _, _, ⟨_, hresult⟩ | ⟨_, hresult⟩⟩ :=
    maybe_compact_cases fs s fault
  · rw [hcompact] at hsame
    exact absurd (hsame _ htmp.symm).1 hrewritten
  · rw [hcompact] at hresult
    simp at hresult
  · rw [hcompact, Prod.mk.injEq, Prod.mk.injEq] at hresult
    obtain ⟨rfl, rfl, _⟩ := hresult
    exact ⟨by rw [logBytes, hread]; rfl, tmp, rfl⟩

/-- What the copy loop keeps is everything above the bound exactly when no such line stands
after one that is not UTF-8. -/
theorem copied_all_iff (keep_above : U64) (bytes : Bytes) :
    (copy_lines keep_above (readLines bytes) [] 0).1 =
        (linesAbove keep_above (readLines bytes)).flatMap (fun line => encode line ++ [10]) ↔
      ReadableAbove keep_above bytes := by
  have hsplit : linesAbove keep_above (readLines bytes) =
      linesAbove keep_above ((readLines bytes).takeWhile Option.isSome) ++
        linesAbove keep_above ((readLines bytes).dropWhile Option.isSome) := by
    rw [linesAbove, linesAbove, linesAbove, ← List.filter_append, ← List.reduceOption_append,
      List.takeWhile_append_dropWhile]
  have hcopied : (copy_lines keep_above (readLines bytes) [] 0).1 =
      (linesAbove keep_above ((readLines bytes).takeWhile Option.isSome)).flatMap fun line => encode line ++ [10] := by
    rw [copy_lines_eq, List.nil_append, ← parsedRows_above, List.flatMap_map]
  rw [hcopied, hsplit, List.flatMap_append, List.self_eq_append_right]
  have hnil : ∀ lines : List Text, lines.flatMap (fun line => encode line ++ [10]) = [] ↔ lines = [] := by
    intro lines
    cases lines <;> simp
  rw [hnil, linesAbove, List.filter_eq_nil_iff]
  constructor
  · intro hnone line e hline hparse
    have hbelow := hnone line (List.reduceOption_mem_iff.mpr hline)
    simpa [isAbove, hparse] using hbelow
  · intro hreadable line hline
    rw [List.reduceOption_mem_iff] at hline
    cases hparse : parse_line line with
    | none => simp [isAbove, hparse]
    | some e => simpa [isAbove, hparse] using hreadable line e hline hparse

/-- A compaction that rewrites the log keeps exactly the lines above the horizon when no
event above it stands after a line that is not UTF-8, and otherwise loses some. -/
theorem compaction_keeps_above_iff {fs fs' : FileSystem} {s s' : Store} {fault : Option CompactFault}
    (hcompact : s.maybe_compact fs fault = (fs', s', true))
    (hrewritten : fs'.entries events_path ≠ fs.entries events_path) :
    KeepsAbove fs s fs' s' ↔ ReadableAbove s.keep_above (logBytes fs) := by
  obtain ⟨hbytes, log, rfl⟩ := rewritten_spec hcompact hrewritten
  rw [← copied_all_iff, ← hbytes]
  exact ⟨fun h => h.lines, fun h => ⟨h, rfl, rfl, rfl, rfl⟩⟩

/-- An event below the horizon of the store beneath, and one above it with a title of
eight mebibytes. -/
def oldEvent : Event where
  seq := 1
  received_at := 1
  kind := "new".toList
  channel_id := "UCabcdefghijklmnopqrstuv".toList
  video_id := "abc123XYZ_-".toList
  ts := "2026-06-18T12:00:00+00:00".toList
  title := "My Live Stream".toList

def lateEvent : Event :=
  { oldEvent with seq := 2000, title := List.replicate COMPACT_BYTES 'x' }

/-- A log of the two, with these bytes between their lines. -/
def gapped (gap : Bytes) : FileSystem :=
  (FileSystem.empty.createNew events_path).setData 0 (render [oldEvent] ++ (gap ++ render [lateEvent]))

def ackedStore : Store where
  log := 0
  next_seq := 2001
  recent := []
  seen := ∅
  ack_through := 1500

theorem gapped_logBytes (gap : Bytes) : logBytes (gapped gap) = render [oldEvent] ++ (gap ++ render [lateEvent]) := rfl

/-- Compacting that log rewrites it, whatever stands between the lines. -/
theorem gapped_rewritten (gap : Bytes) :
    ∃ fs' s', ackedStore.maybe_compact (gapped gap) none = (fs', s', true) ∧
      fs'.entries events_path ≠ (gapped gap).entries events_path := by
  have htitle := lateEvent.title_length_le
  have hlarge : COMPACT_BYTES ≤ (logBytes (gapped gap)).length := by
    rw [gapped_logBytes, List.length_append, List.length_append, render_singleton lateEvent]
    have hlength : lateEvent.title.length = COMPACT_BYTES := List.length_replicate
    omega
  have hdropped : (copy_lines ackedStore.keep_above (readLines (logBytes (gapped gap))) [] 0).2 ≠ 0 := by
    have hmem : (oldEvent.row, oldEvent) ∈ (parsedRows (readLines (logBytes (gapped gap)))).filter fun row =>
        row.2.seq ≤ ackedStore.keep_above := by
      rw [gapped_logBytes, parsedRows_render]
      exact List.mem_filter.mpr ⟨List.mem_cons_self, by decide⟩
    rw [copy_lines_eq, Nat.zero_add]
    exact (List.length_pos_of_mem hmem).ne'
  obtain ⟨_, _, ⟨_, hwhy⟩ | ⟨_, _, hfault, _⟩⟩ | ⟨_, fs', tmp, _, hentries, hnew, _, ⟨hfault, _⟩ | ⟨_, hresult⟩⟩ :=
    maybe_compact_cases (gapped gap) ackedStore none
  · exact absurd hwhy (not_or.mpr ⟨not_lt.mpr hlarge, hdropped⟩)
  · cases hfault
  · cases hfault
  · exact ⟨fs', _, hresult, by rw [hentries]; exact hnew.symm⟩

theorem gapped_readLines (gap : Bytes) :
    readLines (logBytes (gapped gap)) = some oldEvent.row :: readLines (gap ++ render [lateEvent]) := by
  rw [gapped_logBytes, render_singleton oldEvent, readLines_format_line]

theorem readLines_render_singleton (e : Event) : readLines (render [e]) = [some e.row] := by
  have hlines := readLines_format_line e []
  rwa [List.append_nil, ← render_singleton] at hlines

theorem compaction_keeps_above_iff_whole :
    ∃ fs' s', ackedStore.maybe_compact (gapped []) none = (fs', s', true) ∧
      KeepsAbove (gapped []) ackedStore fs' s' := by
  obtain ⟨fs', s', hcompact, hrewritten⟩ := gapped_rewritten []
  refine ⟨fs', s', hcompact, (compaction_keeps_above_iff hcompact hrewritten).mpr fun line e hline _ => ?_⟩
  rw [gapped_readLines, List.nil_append, readLines_render_singleton] at hline
  simp at hline

/-- A line of one byte that is no UTF-8 makes the compaction lose the event after it. -/
theorem compaction_loses_later_lines :
    ∃ fs' s', ackedStore.maybe_compact (gapped [0xff, 10]) none = (fs', s', true) ∧
      fs'.entries events_path ≠ (gapped [0xff, 10]).entries events_path ∧
      ¬ KeepsAbove (gapped [0xff, 10]) ackedStore fs' s' := by
  obtain ⟨fs', s', hcompact, hrewritten⟩ := gapped_rewritten [0xff, 10]
  refine ⟨fs', s', hcompact, hrewritten, fun hkeeps => ?_⟩
  obtain ⟨hbytes, _⟩ := rewritten_spec hcompact hrewritten
  have hreadable := (copied_all_iff _ _).mp (hbytes.symm.trans hkeeps.lines)
  have hlines : readLines ([0xff, 10] ++ render [lateEvent]) = [none, some lateEvent.row] := by
    have hnl : (10 : UInt8) ∉ ([0xff] : Bytes) := by decide
    have hsplit := splitInclusive_terminated hnl (render [lateEvent])
    rw [readLines, List.cons_append, List.cons_append, List.nil_append]
    rw [List.singleton_append] at hsplit
    rw [hsplit, List.map_cons, ← readLines, readLines_render_singleton]
    rfl
  refine absurd (hreadable lateEvent.row lateEvent ?_ (parse_line_row _)) (by decide)
  rw [gapped_readLines, hlines]
  simp

end yt_websub.store
