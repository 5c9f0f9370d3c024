import YtWebsub.Base.Paging
import YtWebsub.Store.Operations

open rust rust.utf8 rust.text rust.num rust.fs
open yt_websub.util

namespace yt_websub.store

theorem tmp_paths :
    ack_path ≠ events_path ∧ events_tmp ≠ events_path ∧ events_tmp ≠ ack_path ∧
      with_extension ack_path "tmp".toList ≠ events_path ∧ with_extension ack_path "tmp".toList ≠ ack_path := by
  decide

/-- A successful `write_atomic` replaces one file and leaves the others alone. -/
theorem write_atomic_spec (fs : FileSystem) (path : Path) (bytes : Bytes) :
    ∃ fs', write_atomic fs path bytes none = (fs', true) ∧ fs'.read path = some bytes ∧
      ∀ other, other ≠ with_extension path "tmp".toList → other ≠ path →
        fs'.entries other = fs.entries other ∧ fs'.read other = fs.read other := by
  obtain ⟨fs', hrename, hread, _, hother⟩ := fs.replace_spec (with_extension path "tmp".toList) path bytes
  refine ⟨fs', ?_, hread, hother⟩
  simp only [write_atomic, reduceCtorEq, if_false, hrename]

/-- Wherever `write_atomic` fails, it touches its temporary file and its target only. -/
theorem write_atomic_other (fs : FileSystem) {path other : Path} (bytes : Bytes) (fault : Option AtomicFault)
    (htmp : other ≠ with_extension path "tmp".toList) (hpath : other ≠ path) :
    (write_atomic fs path bytes fault).1.entries other = fs.entries other ∧
      (write_atomic fs path bytes fault).1.read other = fs.read other := by
  have hcopy : ∀ written : Bytes,
      ((fs.create (with_extension path "tmp".toList)).1.append (fs.create (with_extension path "tmp".toList)).2
          written).entries other = fs.entries other ∧
        ((fs.create (with_extension path "tmp".toList)).1.append (fs.create (with_extension path "tmp".toList)).2
          written).read other = fs.read other := by
    intro written
    refine ⟨fs.create_entries_of_ne htmp, ?_⟩
    rw [FileSystem.append_read_of_ne (fs.create_entries_self _) htmp, fs.create_read_of_ne htmp]
  cases fault with
  | none =>
    obtain ⟨fs', hwrite, _, hother⟩ := write_atomic_spec fs path bytes
    rw [hwrite]
    exact hother other htmp hpath
  | some fault =>
    cases fault with
    | create => exact ⟨rfl, rfl⟩
    | write written => exact hcopy (bytes.take written)
    | sync => exact hcopy bytes
    | rename => exact hcopy bytes

/-- The persisted cursor is read back. -/
theorem load_ack_of_read {fs : FileSystem} {through : U64}
    (h : fs.read ack_path = some (encode (to_string through))) : load_ack fs = through := by
  have hspace : ∀ c ∈ to_string through, isWhitespace c = false :=
    fun c hc => not_whitespace_of_isDigit (isDigit_of_mem_to_string hc)
  simp [load_ack, h, trim_of_not_whitespace hspace]

/-- Everything an acknowledgement can do without an I/O error: nothing, or advance the
cursor in memory and on disk. -/
theorem set_ack_cases (fs : FileSystem) (s : Store) (through : U64) :
    (through ≤ s.ack_through ∧ s.set_ack fs through none = (fs, s)) ∨
    (s.ack_through < through ∧ ∃ fs', s.set_ack fs through none = (fs', { s with ack_through := through }) ∧
      fs'.read ack_path = some (encode (to_string through)) ∧
      fs'.entries events_path = fs.entries events_path ∧ fs'.read events_path = fs.read events_path) := by
  unfold Store.set_ack
  by_cases hlater : s.ack_through < through
  · obtain ⟨fs', hwrite, hread, hother⟩ := write_atomic_spec fs ack_path (encode (to_string through))
    obtain ⟨hack, _, _, htmp, _⟩ := tmp_paths
    obtain ⟨hentries, hlog⟩ := hother events_path htmp.symm hack.symm
    refine Or.inr ⟨hlater, fs', ?_, hread, hentries, hlog⟩
    rw [if_pos hlater]
    simp only [hwrite]
  · exact Or.inl ⟨not_lt.mp hlater, if_neg hlater⟩

/-- Whether or not it can be persisted, an acknowledgement changes the cursor only and
leaves the log alone. -/
theorem set_ack_unmoved (fs : FileSystem) (s : Store) (through : U64) (fault : Option AtomicFault) :
    ∃ fs' ack_through, s.set_ack fs through fault = (fs', { s with ack_through }) ∧
      fs'.entries events_path = fs.entries events_path ∧ fs'.read events_path = fs.read events_path := by
  unfold Store.set_ack
  obtain ⟨hack, _, _, htmp, _⟩ := tmp_paths
  split
  · exact ⟨_, through, rfl, write_atomic_other fs _ fault htmp.symm hack.symm⟩
  · exact ⟨fs, s.ack_through, rfl, rfl, rfl⟩

/-- The kept lines are those above the bound, the dropped ones are counted. -/
theorem copy_lines_eq (keep_above : U64) (lines : List (Option Text)) (out : Bytes) (dropped : Nat) :
    copy_lines keep_above lines out dropped =
      (out ++ ((parsedRows lines).filter fun row => keep_above < row.2.seq).flatMap
          fun row => encode row.1 ++ [10],
        dropped + ((parsedRows lines).filter fun row => row.2.seq ≤ keep_above).length) := by
  induction lines generalizing out dropped with
  | nil => simp [copy_lines, parsedRows]
  | cons line lines ih =>
    cases line with
    | none => simp [copy_lines, parsedRows]
    | some line =>
      rw [copy_lines, parsedRows]
      cases parse_line line with
      | none => exact ih out dropped
      | some e =>
        by_cases hkeep : keep_above < e.seq
        · simp only [ih, List.filter_cons, hkeep, decide_true, if_true, not_le.mpr hkeep,
            decide_false, Bool.false_eq_true, if_false, List.flatMap_cons, List.append_assoc]
        · simp only [ih, List.filter_cons, hkeep, decide_false, Bool.false_eq_true, if_false,
            not_lt.mp hkeep, decide_true, if_true, List.length_cons, Prod.mk.injEq, true_and]
          omega

/-- Compacting complete lines keeps the lines of the later events. -/
theorem copy_lines_render (keep_above : U64) (es : List Event) :
    copy_lines keep_above (readLines (render es)) [] 0 =
      (render (es.filter fun e => keep_above < e.seq), (es.filter fun e => e.seq ≤ keep_above).length) := by
  have hrows : parsedRows (readLines (render es)) = es.map fun e => (e.row, e) := by
    have h := parsedRows_render es []
    rw [List.append_nil] at h
    rw [h]
    exact List.append_nil _
  rw [copy_lines_eq, hrows, List.nil_append, Nat.zero_add, List.filter_map, List.filter_map, List.flatMap_map,
    List.length_map]
  refine Prod.ext (List.flatMap_congr fun e _ => ?_) rfl
  exact (encode_append e.row ['\n']).symm

/-- The log and everything beside the temporary copy are left as they are. -/
def Untouched (fs fs' : FileSystem) : Prop :=
  ∀ path, path ≠ events_tmp → fs'.entries path = fs.entries path ∧ fs'.read path = fs.read path

theorem Untouched.refl (fs : FileSystem) : Untouched fs fs :=
  fun _ _ => ⟨rfl, rfl⟩

/-- Writing the temporary copy touches nothing else. -/
theorem Untouched.copy (fs : FileSystem) (bytes : Bytes) :
    Untouched fs ((fs.create events_tmp).1.append (fs.create events_tmp).2 bytes) := by
  intro path hpath
  refine ⟨fs.create_entries_of_ne hpath, ?_⟩
  rw [FileSystem.append_read_of_ne (fs.create_entries_self _) hpath, fs.create_read_of_ne hpath]

theorem Untouched.discard {fs fs' : FileSystem} (h : Untouched fs fs') (inode : Nat) :
    Untouched fs ((fs'.sync inode).remove events_tmp) := by
  intro path hpath
  rw [FileSystem.remove_entries_of_ne _ hpath, FileSystem.remove_read_of_ne _ hpath]
  exact h path hpath

/-- Everything a compaction can do, wherever it fails: leave the log alone, or put the
copied lines in its place, with the handle on the new file unless opening it fails. -/
theorem maybe_compact_cases (fs : FileSystem) (s : Store) (fault : Option CompactFault) :
    let copied := copy_lines s.keep_above (readLines (logBytes fs)) [] 0
    let result := s.maybe_compact fs fault
    (Untouched fs result.1 ∧ result.2.1 = s ∧
      ((result.2.2 = true ∧ ((logBytes fs).length < COMPACT_BYTES ∨ copied.2 = 0)) ∨
        (result.2.2 = false ∧ ∃ failed, fault = some failed ∧ failed ≠ .reopen))) ∨
    (COMPACT_BYTES ≤ (logBytes fs).length ∧ ∃ fs' tmp, fs'.read events_path = some copied.1 ∧
      fs'.entries events_path = some tmp ∧ fs.entries events_path ≠ some tmp ∧ fs'.read ack_path = fs.read ack_path ∧
      ((fault = some .reopen ∧ result = (fs', s, false)) ∨
        (fault = none ∧ result = (fs', { s with log := tmp }, true)))) := by
  intro copied result
  obtain ⟨hack, htmp, htmpack, _⟩ := tmp_paths
  have hlen : (fs.read events_path).elim 0 List.length = (logBytes fs).length := by
    rw [logBytes]
    cases fs.read events_path <;> rfl
  by_cases hsmall : (logBytes fs).length < COMPACT_BYTES
  · have hresult : result = (fs, s, true) := by
      simp only [result, Store.maybe_compact, hlen, if_pos hsmall]
    rw [hresult]
    exact Or.inl ⟨.refl fs, rfl, Or.inl ⟨rfl, Or.inl hsmall⟩⟩
  have hread : fs.read events_path = some (logBytes fs) := by
    rw [logBytes] at hsmall ⊢
    cases hread : fs.read events_path with
    | none => simp [hread, COMPACT_BYTES] at hsmall
    | some bytes => rfl
  have hresult : result = s.maybe_compact fs fault := rfl
  simp only [Store.maybe_compact, hread, Option.elim_some, if_neg hsmall] at hresult
  have hcopy := Untouched.copy fs copied.1
  have hdiscard := hcopy.discard (fs.create events_tmp).2
  obtain ⟨fs', hrename, hkept, hhandle, hother⟩ := fs.replace_spec events_tmp events_path copied.1
  have hnew : fs.entries events_path ≠ some (fs.create events_tmp).2 := fun h => fs.create_ne h htmp.symm rfl
  have hreplaced : fs'.read ack_path = fs.read ack_path := (hother ack_path htmpack.symm hack).2
  cases fault with
  | none =>
    simp only [reduceCtorEq, or_self, if_false] at hresult
    by_cases hnone : copied.2 = 0
    · rw [if_pos hnone] at hresult
      rw [hresult]
      exact Or.inl ⟨hdiscard, rfl, Or.inl ⟨rfl, Or.inr hnone⟩⟩
    · rw [if_neg hnone, hrename] at hresult
      have hopen : fs'.openAppend events_path = (fs', (fs.create events_tmp).2) := by
        rw [FileSystem.openAppend, hhandle]
      refine Or.inr ⟨not_lt.mp hsmall, fs', _, hkept, hhandle, hnew, hreplaced, Or.inr ⟨rfl, ?_⟩⟩
      simp only [hresult, hopen]
  | some fault =>
    cases fault with
    | «open» | create =>
      simp only [true_or, or_true, if_true] at hresult
      rw [hresult]
      exact Or.inl ⟨.refl fs, rfl, Or.inr ⟨rfl, _, rfl, by simp⟩⟩
    | write written =>
      simp only [Option.some.injEq, reduceCtorEq, or_self, if_false] at hresult
      rw [hresult]
      exact Or.inl ⟨.copy fs _, rfl, Or.inr ⟨rfl, _, rfl, by simp⟩⟩
    | sync =>
      simp only [Option.some.injEq, reduceCtorEq, or_self, if_false] at hresult
      rw [hresult]
      exact Or.inl ⟨hcopy, rfl, Or.inr ⟨rfl, _, rfl, by simp⟩⟩
    | rename =>
      simp only [Option.some.injEq, reduceCtorEq, or_self, if_false, if_true] at hresult
      by_cases hnone : copied.2 = 0
      · rw [if_pos hnone] at hresult
        rw [hresult]
        exact Or.inl ⟨hdiscard, rfl, Or.inl ⟨rfl, Or.inr hnone⟩⟩
      · rw [if_neg hnone] at hresult
        rw [hresult]
        exact Or.inl ⟨hcopy, rfl, Or.inr ⟨rfl, _, rfl, by simp⟩⟩
    | reopen =>
      simp only [Option.some.injEq, reduceCtorEq, or_self, if_false, if_true] at hresult
      by_cases hnone : copied.2 = 0
      · rw [if_pos hnone] at hresult
        rw [hresult]
        exact Or.inl ⟨hdiscard, rfl, Or.inl ⟨rfl, Or.inr hnone⟩⟩
      · rw [if_neg hnone, hrename] at hresult
        exact Or.inr ⟨not_lt.mp hsmall, fs', _, hkept, hhandle, hnew, hreplaced, Or.inl ⟨rfl, hresult⟩⟩

/-- Without an I/O error the log is left alone or replaced by what was copied. -/
theorem compact_cases {fs : FileSystem} {s : Store} (hhandle : fs.entries events_path = some s.log) :
    let copied := copy_lines s.keep_above (readLines (logBytes fs)) [] 0
    ∃ fs' log, s.maybe_compact fs none = (fs', { s with log }, true) ∧
      fs'.entries events_path = some log ∧ fs'.read ack_path = fs.read ack_path ∧
      ((logBytes fs' = logBytes fs ∧ ((logBytes fs).length < COMPACT_BYTES ∨ copied.2 = 0)) ∨
        (COMPACT_BYTES ≤ (logBytes fs).length ∧ logBytes fs' = copied.1)) := by
  intro copied
  obtain ⟨_, htmp, htmpack, _⟩ := tmp_paths
  obtain ⟨hsame, hstore, ⟨hok, hwhy⟩ | ⟨_, _, hfault, _⟩⟩ |
      ⟨hlarge, fs', tmp, hread, hentries, _, hack, ⟨hfault, _⟩ | ⟨_, hresult⟩⟩ := maybe_compact_cases fs s none
  · refine ⟨_, s.log, Prod.ext rfl (Prod.ext hstore hok), (hsame _ htmp.symm).1.trans hhandle,
      (hsame _ htmpack.symm).2, Or.inl ⟨?_, hwhy⟩⟩
    rw [logBytes, (hsame _ htmp.symm).2, logBytes]
  · cases hfault
  · cases hfault
  · exact ⟨fs', tmp, hresult, hentries, hack, Or.inr ⟨hlarge, by rw [logBytes, hread]; rfl⟩⟩

/-- Compacting complete lines drops the events up to the bound, or changes nothing. -/
theorem compact_render {fs : FileSystem} {s : Store} (hhandle : fs.entries events_path = some s.log)
    {es : List Event} (hfile : logBytes fs = render es) :
    ∃ fs' log, s.maybe_compact fs none = (fs', { s with log }, true) ∧
      fs'.entries events_path = some log ∧ fs'.read ack_path = fs.read ack_path ∧
      ((logBytes fs' = render es ∧
          ((logBytes fs).length < COMPACT_BYTES ∨ ∀ e ∈ es, s.keep_above < e.seq)) ∨
        (COMPACT_BYTES ≤ (logBytes fs).length ∧
          logBytes fs' = render (es.filter fun e => s.keep_above < e.seq))) := by
  obtain ⟨fs', log, hcompact, hhandle', hack, hcases⟩ := compact_cases hhandle
  have hcopied : copy_lines s.keep_above (readLines (logBytes fs)) [] 0 =
      (render (es.filter fun e => s.keep_above < e.seq), (es.filter fun e => e.seq ≤ s.keep_above).length) := by
    rw [hfile, copy_lines_render]
  simp only [hcopied] at hcases
  refine ⟨fs', log, hcompact, hhandle', hack, hcases.imp_left fun ⟨hsame, hwhy⟩ => ⟨hsame.trans hfile, ?_⟩⟩
  refine hwhy.imp_right fun hnone e he => ?_
  simpa using List.filter_eq_nil_iff.mp (List.length_eq_zero_iff.mp hnone) e he

/-- The append handle refers to the log, and the log consists of complete lines. -/
structure Intact (fs : FileSystem) (s : Store) : Prop where
  handle : fs.entries events_path = some s.log
  file : logBytes fs = render (logged fs)

theorem Intact.init : Intact (Store.open .empty).1 (Store.open .empty).2 where
  handle := rfl
  file := rfl

/-- Without an I/O error an append is suppressed, or adds its event to the log, or panics. -/
theorem Intact.call {fs fs' : FileSystem} {s s' : Store} (h : Intact fs s) {c : Call} {result : AppendResult}
    (hcall : s.call fs c none = (fs', s', result)) (hlive : result ≠ .panic) :
    (c.key ∈ s.seen ∧ fs' = fs ∧ s' = s ∧ result = .ok none) ∨
    (c.key ∉ s.seen ∧ ∃ next_seq, checked_add s.next_seq 1 = some next_seq ∧
      s' = s.recorded (s.event c) next_seq ∧ result = .ok (some s.next_seq) ∧ Intact fs' s' ∧
      logged fs' = logged fs ++ [s.event c] ∧ load_ack fs' = load_ack fs) := by
  obtain ⟨hseen, hcases⟩ | ⟨_, hfault, _⟩ | ⟨_, _, _, hcases⟩ | ⟨hnew, _, next_seq, hadd, hcases⟩ :=
    call_cases fs s c none
  · rw [hcases, Prod.mk.injEq, Prod.mk.injEq] at hcall
    obtain ⟨rfl, rfl, rfl⟩ := hcall
    exact Or.inl ⟨hseen, rfl, rfl, rfl⟩
  · simp at hfault
  · rw [hcases, Prod.mk.injEq, Prod.mk.injEq] at hcall
    exact absurd hcall.2.2.symm hlive
  · rw [hcases, Prod.mk.injEq, Prod.mk.injEq] at hcall
    obtain ⟨rfl, rfl, rfl⟩ := hcall
    have hbytes := logBytes_append h.handle (encode (format_line (s.event c)))
    rw [h.file, ← render_singleton, ← render_append] at hbytes
    have hlogged : logged ((fs.append s.log (render [s.event c])).sync s.log) = logged fs ++ [s.event c] := by
      rw [logged_eq, logBytes, FileSystem.sync_read, ← logBytes, hbytes, eventsIn_render]
    rw [← render_singleton]
    refine Or.inr ⟨hnew, next_seq, hadd, rfl, rfl, ⟨h.handle, ?_⟩, hlogged, ?_⟩
    · rw [hlogged, ← hbytes]
      rfl
    · rw [load_ack, FileSystem.sync_read, FileSystem.append_read_of_ne h.handle tmp_paths.1, load_ack]

/-- An acknowledgement changes the cursor only, in memory and on disk. -/
theorem Intact.set_ack {fs : FileSystem} {s : Store} (h : Intact fs s) (through : U64) :
    ∃ fs' ack_through, s.set_ack fs through none = (fs', { s with ack_through }) ∧
      Intact fs' { s with ack_through } ∧ logged fs' = logged fs ∧
      (load_ack fs = s.ack_through → load_ack fs' = ack_through) := by
  obtain ⟨_, hack⟩ | ⟨_, fs', hack, hread, hentries, hlog⟩ := set_ack_cases fs s through
  · exact ⟨fs, s.ack_through, hack, h, rfl, id⟩
  · have hbytes : logBytes fs' = logBytes fs := by rw [logBytes, hlog, logBytes]
    have hlogged : logged fs' = logged fs := by rw [logged_eq, hbytes, logged_eq]
    exact ⟨fs', through, hack, ⟨hentries.trans h.handle, by rw [hbytes, hlogged, h.file]⟩, hlogged,
      fun _ => load_ack_of_read hread⟩

/-- A compaction drops the events up to the bound, or changes nothing. -/
theorem Intact.compact {fs : FileSystem} {s : Store} (h : Intact fs s) :
    ∃ fs' log, s.maybe_compact fs none = (fs', { s with log }, true) ∧ Intact fs' { s with log } ∧
      fs'.read ack_path = fs.read ack_path ∧
      ((logged fs' = logged fs ∧
          ((logBytes fs).length < COMPACT_BYTES ∨ ∀ e ∈ logged fs, s.keep_above < e.seq)) ∨
        (COMPACT_BYTES ≤ (logBytes fs).length ∧
          logged fs' = (logged fs).filter fun e => s.keep_above < e.seq)) := by
  obtain ⟨fs', log, hcompact, hhandle, hack, hcases⟩ := compact_render h.handle h.file
  refine ⟨fs', log, hcompact, ⟨hhandle, ?_⟩, hack, ?_⟩
  · obtain ⟨hbytes, _⟩ | ⟨_, hbytes⟩ := hcases <;> rw [logged_eq, hbytes, eventsIn_render]
  · refine hcases.imp (fun ⟨hbytes, hwhy⟩ => ⟨?_, hwhy⟩) (fun ⟨hlarge, hbytes⟩ => ⟨hlarge, ?_⟩)
    · rw [logged_eq, hbytes, eventsIn_render]
    · rw [logged_eq, hbytes, eventsIn_render]

/-- A restart reads the log and leaves it as it is. -/
theorem Intact.reopen {fs : FileSystem} {s : Store} (h : Intact fs s) :
    Intact (Store.open fs).1 (Store.open fs).2 ∧ logged (Store.open fs).1 = logged fs := by
  have hbytes : logBytes (Store.open fs).1 = logBytes fs := by
    rw [logBytes, open_fs, FileSystem.openAppend_read_self]
    rfl
  have hlogged : logged (Store.open fs).1 = logged fs := by rw [logged_eq, logged_eq, hbytes]
  refine ⟨⟨?_, by rw [hlogged, hbytes, h.file]⟩, hlogged⟩
  rw [open_fs, open_log, FileSystem.openAppend_entries_self]

end yt_websub.store
