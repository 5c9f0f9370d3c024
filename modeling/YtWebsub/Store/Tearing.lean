import YtWebsub.Store.Operations

open rust rust.utf8 rust.text rust.num rust.fs
open yt_websub.util

namespace yt_websub.store

/-- A piece that keeps every separator of the columns keeps every column but the last whole. -/
theorem splitOn_of_prefix {α : Type} [DecidableEq α] {sep : α} {columns : List (List α)} {s : List α}
    (hsep : ∀ column ∈ columns, sep ∉ column) (hpre : s <+: [sep].intercalate columns)
    (hcount : s.count sep + 1 = columns.length) : ∃ last, s.splitOn sep = columns.dropLast ++ [last] := by
  induction columns generalizing s with
  | nil => simp at hcount
  | cons column columns ih =>
    obtain ⟨hcolumn, hrest⟩ := List.forall_mem_cons.mp hsep
    cases columns with
    | nil =>
      have hnot : sep ∉ s := by
        rw [← List.count_eq_zero]
        simpa using hcount
      exact ⟨s, List.splitOn_eq_singleton hnot⟩
    | cons next columns =>
      rw [List.intercalate_cons_cons, List.append_assoc, List.singleton_append] at hpre
      have hmem : sep ∈ s := by
        rw [← List.count_pos_iff]
        simp only [List.length_cons] at hcount
        omega
      obtain ⟨s', rfl⟩ := exists_of_prefix_of_mem hpre hmem hcolumn
      rw [List.prefix_append_right_inj, List.cons_prefix_cons] at hpre
      rw [List.count_append, List.count_cons_self, List.count_eq_zero.mpr hcolumn] at hcount
      obtain ⟨last, hlast⟩ := ih hrest hpre.2 (by simp only [List.length_cons] at hcount ⊢; omega)
      exact ⟨last, by rw [List.splitOn_append_cons_self_of_not_mem hcolumn, hlast]; rfl⟩

/-- The pieces of a text are one more than its separators. -/
theorem length_splitOn {α : Type} [DecidableEq α] (sep : α) (s : List α) :
    (s.splitOn sep).length = s.count sep + 1 := by
  induction s with
  | nil => simp
  | cons c s ih =>
    rw [List.splitOn_cons_eq_if_modifyHead]
    by_cases hc : c = sep
    · subst hc
      simp [ih]
    · simp [hc, ih]

/-- A torn row parses exactly when it keeps all six separators. -/
theorem parse_line_torn {e : Event} {s : Text} (hpre : s <+: e.row) :
    parse_line s = none ↔ s.count '\t' < 6 := by
  have hsep := e.not_mem_columns (c := '\t') (by decide)
  have hlen : e.columns.length = 7 := rfl
  have hrow : e.row.count '\t' = 6 := by
    have hsplit := length_splitOn '\t' e.row
    rw [e.splitOn_row, hlen] at hsplit
    omega
  have hle := hpre.sublist.count_le '\t'
  constructor
  · intro hnone
    by_contra hall
    obtain ⟨last, hlast⟩ := splitOn_of_prefix hsep hpre (by omega)
    rw [parse_line, hlast] at hnone
    simp [Event.columns] at hnone
  · intro hfew
    have hsplit := length_splitOn '\t' s
    unfold parse_line
    split
    · rename_i heq
      rw [heq] at hsplit
      simp only [List.length_cons, List.length_nil] at hsplit
      omega
    · rfl

/-- The piece shows that it was torn: it ends before the last column, or within a character. -/
def Detectable (torn : Bytes) : Prop :=
  torn.count 9 < 6 ∨ decode torn = none

instance (torn : Bytes) : Decidable (Detectable torn) :=
  inferInstanceAs (Decidable (_ ∨ _))

/-- Nothing is read from a torn line exactly when it shows that it was torn. -/
theorem eventsIn_torn_eq_nil {e : Event} {torn : Bytes} (htorn : torn <+: encode e.row) :
    eventsIn torn = [] ↔ Detectable torn := by
  by_cases hne : torn = []
  · subst hne
    exact ⟨fun _ => Or.inl (by decide), fun _ => rfl⟩
  have hrow : '\n' ∉ e.row := e.not_mem_row (by decide) (by decide)
  have hnl : (10 : UInt8) ∉ torn := fun hmem => not_mem_encode (c := '\n') (by decide) hrow (htorn.subset hmem)
  rw [eventsIn, readLines_of_not_mem hne hnl, Detectable]
  cases hdecode : decode torn with
  | none => simp [parsedRows]
  | some s =>
    have hpre : s <+: e.row := by
      apply prefix_of_encode_prefix
      rw [encode_of_decode hdecode]
      exact htorn
    have hs : '\n' ∉ s := fun hmem => hrow (hpre.subset hmem)
    have htabs : torn.count 9 = s.count '\t' := by
      rw [← encode_of_decode hdecode]
      exact count_encode (c := '\t') (by decide) s
    rw [Option.map_some, stripEol_of_not_mem hs, htabs, ← parse_line_torn hpre]
    cases hparse : parse_line s <;> simp [parsedRows, hparse]

/-- Opening the second log gives what opening the first gives, and every event that is
read from it was read from the first. -/
structure SameRecovery (fs fs' : FileSystem) : Prop where
  next_seq : (Store.open fs').2.next_seq = (Store.open fs).2.next_seq
  recent : (Store.open fs').2.recent = (Store.open fs).2.recent
  seen : (Store.open fs').2.seen = (Store.open fs).2.seen
  events : logged fs' = logged fs

theorem SameRecovery.of_logged {fs fs' : FileSystem} (h : logged fs' = logged fs) : SameRecovery fs fs' := by
  obtain ⟨hnext, hrecent, hseen⟩ := open_spec fs
  obtain ⟨hnext', hrecent', hseen'⟩ := open_spec fs'
  have hsame : (Store.open fs').2.recent = (Store.open fs).2.recent := by rw [hrecent, hrecent', h]
  exact ⟨by rw [hnext, hnext', h], hsame, by rw [hseen, hseen', hsame], h⟩

/-- A log of complete lines followed by a torn one is recovered as the complete lines alone
exactly when the torn line ends before its last column or within a character. -/
theorem torn_line_skipped_iff {fs fs' : FileSystem} {es : List Event} {e : Event} {torn : Bytes}
    (hcomplete : fs.read events_path = some (render es))
    (htear : fs'.read events_path = some (render es ++ torn)) (htorn : torn <+: encode (format_line e))
    (hproper : torn ≠ encode (format_line e)) : SameRecovery fs fs' ↔ Detectable torn := by
  have hlogged : logged fs = es := by rw [logged, hcomplete, Option.elim_some, eventsIn_render]
  have hlogged' : logged fs' = es ++ eventsIn torn := by
    rw [logged, htear, Option.elim_some, eventsIn_render_append]
  rw [← eventsIn_torn_eq_nil ((prefix_format_line htorn).resolve_left hproper)]
  constructor
  · intro hsame
    have hevents := hsame.events
    rw [hlogged', hlogged] at hevents
    exact List.append_right_eq_self.mp hevents
  · intro hnone
    exact .of_logged (by rw [hlogged', hnone, List.append_nil, hlogged])

/-- A store that has logged one event, and its log. -/
def loggedOnce : FileSystem × Store :=
  let (fs, store) := Store.open .empty
  let (fs, store, _) := store.call fs .sample none
  (fs, store)

/-- The same event seen a second time, without its title. -/
def untitled : Call :=
  { Call.sample with ts := [], title := [] }

/-- The log after an append of it that broke off. -/
def brokenOff (written : Nat) : FileSystem :=
  (loggedOnce.2.call loggedOnce.1 untitled (some (.write written))).1

/-- The line ends within its fifth column. -/
theorem torn_line_skipped_iff_video_id : SameRecovery loggedOnce.1 (brokenOff 35) := by
  have hcomplete : loggedOnce.1.read events_path = some (render [(Store.open .empty).2.event .sample]) := by
    decide +kernel
  have htear : (brokenOff 35).read events_path = some (render [(Store.open .empty).2.event .sample] ++
      (encode (format_line (loggedOnce.2.event untitled))).take 35) := by decide +kernel
  exact (torn_line_skipped_iff hcomplete htear (List.take_prefix _ _) (by decide +kernel)).mpr (by decide +kernel)

/-- Only the newline is missing: the event is recovered all the same. -/
theorem torn_line_recovered :
    let line := encode (format_line (loggedOnce.2.event untitled))
    let torn := line.dropLast
    torn <+: line ∧ torn ≠ line ∧ (brokenOff torn.length).read events_path =
      some (render [(Store.open .empty).2.event .sample] ++ torn) ∧
      loggedOnce.1.read events_path = some (render [(Store.open .empty).2.event .sample]) ∧
      ¬ SameRecovery loggedOnce.1 (brokenOff torn.length) := by
  refine ⟨List.dropLast_prefix _, by decide +kernel, by decide +kernel, by decide +kernel, fun hsame => ?_⟩
  exact absurd hsame.next_seq (by decide +kernel)

end yt_websub.store
