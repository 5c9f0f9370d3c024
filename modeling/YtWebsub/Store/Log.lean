import YtWebsub.Store.Model

open rust rust.utf8 rust.text rust.num rust.fs
open yt_websub.util

namespace yt_websub.store

/-- The rows that every reading loop of the store sees: those that parse, up to the
first line that is not UTF-8. -/
def parsedRows : List (Option Text) → List (Text × Event)
  | [] => []
  | none :: _ => []
  | some line :: lines =>
    match parse_line line with
    | some e => (line, e) :: parsedRows lines
    | none => parsedRows lines

/-- The events in a file of these bytes. -/
def eventsIn (bytes : Bytes) : List Event :=
  (parsedRows (readLines bytes)).map Prod.snd

/-- The events in `events.log`; a missing file has none. -/
def logged (fs : FileSystem) : List Event :=
  (fs.read events_path).elim [] eventsIn

/-- The bytes of `events.log`. -/
def logBytes (fs : FileSystem) : Bytes :=
  (fs.read events_path).getD []

theorem logged_eq (fs : FileSystem) : logged fs = eventsIn (logBytes fs) := by
  unfold logged logBytes
  cases fs.read events_path <;> rfl

/-- The log that a list of appends writes. -/
def render (es : List Event) : Bytes :=
  es.flatMap fun e => encode (format_line e)

@[simp]
theorem render_nil : render [] = [] := rfl

@[simp]
theorem render_append (es es' : List Event) : render (es ++ es') = render es ++ render es' :=
  List.flatMap_append

theorem render_singleton (e : Event) : render [e] = encode (format_line e) :=
  List.flatMap_singleton ..

/-- A prefix of a line is the whole line or a prefix of its row. -/
theorem prefix_format_line {torn : Bytes} {e : Event} (h : torn <+: encode (format_line e)) :
    torn = encode (format_line e) ∨ torn <+: encode e.row := by
  have hline : encode (format_line e) = encode e.row ++ [10] := encode_append _ _
  rw [hline] at h ⊢
  exact List.prefix_concat_iff.mp h

theorem readLines_format_line (e : Event) (rest : Bytes) :
    readLines (encode (format_line e) ++ rest) = some e.row :: readLines rest :=
  readLines_terminated (e.not_mem_row (by decide) (by decide)) (e.not_mem_row (by decide) (by decide)) rest

theorem parsedRows_render (es : List Event) (rest : Bytes) :
    parsedRows (readLines (render es ++ rest)) = es.map (fun e => (e.row, e)) ++ parsedRows (readLines rest) := by
  induction es with
  | nil => rfl
  | cons e es ih =>
    rw [render, List.flatMap_cons, List.append_assoc, readLines_format_line, parsedRows, parse_line_row]
    simp only [List.map_cons, List.cons_append]
    exact congrArg _ ih

/-- Complete lines are all read, whatever follows them. -/
theorem eventsIn_render_append (es : List Event) (rest : Bytes) :
    eventsIn (render es ++ rest) = es ++ eventsIn rest := by
  rw [eventsIn, parsedRows_render, List.map_append, List.map_map]
  congr 1
  exact List.map_id es

/-- A log written by whole appends holds exactly the appended events. -/
@[simp]
theorem eventsIn_render (es : List Event) : eventsIn (render es) = es := by
  have hread := eventsIn_render_append es []
  rw [List.append_nil] at hread
  rw [hread]
  exact List.append_nil es

/-- What is left of a torn line holds at most one event, with the sequence number of
the line it was torn from. -/
theorem eventsIn_torn {e : Event} {torn : Bytes} (htorn : torn <+: encode e.row) :
    eventsIn torn = [] ∨ ∃ e', eventsIn torn = [e'] ∧ e'.seq = e.seq := by
  by_cases hne : torn = []
  · exact Or.inl (hne ▸ rfl)
  have hrow : '\n' ∉ e.row := e.not_mem_row (by decide) (by decide)
  have hnl : (10 : UInt8) ∉ torn := fun hmem => not_mem_encode (c := '\n') (by decide) hrow (htorn.subset hmem)
  rw [eventsIn, readLines_of_not_mem hne hnl]
  cases hdecode : decode torn with
  | none => exact Or.inl rfl
  | some s =>
    have hpre : s <+: e.row := by
      apply prefix_of_encode_prefix
      rw [encode_of_decode hdecode]
      exact htorn
    have hs : '\n' ∉ s := fun hmem => hrow (hpre.subset hmem)
    rw [Option.map_some, stripEol_of_not_mem hs]
    cases hparse : parse_line s with
    | none => exact Or.inl (by simp [parsedRows, hparse])
    | some e' => exact Or.inr ⟨e', by simp [parsedRows, hparse], parse_line_prefix hpre hparse⟩

/-- How `open` moves `next_seq` past one event. -/
def bump (next_seq : U64) (e : Event) : U64 :=
  if next_seq ≤ e.seq then saturating_add e.seq 1 else next_seq

theorem load_lines_eq (lines : List (Option Text)) (next_seq : U64) (recent : List Event) :
    load_lines lines next_seq recent =
      (((parsedRows lines).map Prod.snd).foldl bump next_seq,
        ((parsedRows lines).map Prod.snd).foldl push_recent recent) := by
  induction lines generalizing next_seq recent with
  | nil => rfl
  | cons line lines ih =>
    cases line with
    | none => rfl
    | some line =>
      rw [load_lines, parsedRows]
      cases parse_line line with
      | none => exact ih next_seq recent
      | some e => exact ih (bump next_seq e) (push_recent recent e)

/-- Pushing onto the last `RECENT_CAP` events keeps the last `RECENT_CAP` events. -/
theorem push_recent_rtake (es : List Event) (e : Event) :
    push_recent (es.rtake RECENT_CAP) e = (es ++ [e]).rtake RECENT_CAP := by
  unfold push_recent List.rtake
  generalize RECENT_CAP = cap
  have hlen : (es.drop (es.length - cap) ++ [e]).length = es.length - (es.length - cap) + 1 := by simp
  simp only [hlen, List.length_append, List.length_singleton]
  by_cases hfull : cap < es.length - (es.length - cap) + 1
  · have hcap : es.length + 1 - cap = es.length - cap + 1 ∨ cap = 0 := by omega
    rw [if_pos hfull]
    rcases hcap with hcap | hcap
    · by_cases hdrop : es.length - cap < es.length
      · rw [hcap, List.tail_append_of_ne_nil (by simp; omega), List.tail_drop,
          List.drop_append_of_le_length (by omega)]
      · rw [hcap, List.drop_of_length_le (by omega), List.drop_of_length_le (by simp; omega)]
        rfl
    · subst hcap
      rw [List.drop_of_length_le (by omega), List.drop_of_length_le (by simp)]
      rfl
  · have hcap : es.length + 1 - cap = es.length - cap := by omega
    rw [if_neg hfull, hcap, List.drop_append_of_le_length (by omega)]

theorem foldl_push_recent (es : List Event) : es.foldl push_recent [] = es.rtake RECENT_CAP := by
  induction es using List.reverseRecOn with
  | nil => rfl
  | append_singleton es e ih => rw [List.foldl_append, List.foldl_cons, List.foldl_nil, ih, push_recent_rtake]

theorem le_bump (next_seq : U64) (e : Event) : next_seq ≤ bump next_seq e := by
  unfold bump
  split
  · rename_i hle
    rw [Fin.le_def] at hle ⊢
    have hlt := next_seq.isLt
    rw [saturating_add_val]
    omega
  · exact le_rfl

/-- Past an event, or pinned at the limit. -/
theorem lt_or_eq_max_bump (next_seq : U64) (e : Event) : e.seq < bump next_seq e ∨ bump next_seq e = U64.MAX := by
  unfold bump
  simp only [Fin.lt_def, Fin.ext_iff, U64.MAX]
  have hlt := e.seq.isLt
  split
  · rw [saturating_add_val]
    omega
  · rename_i hle
    rw [Fin.le_def] at hle
    omega

theorem le_foldl_bump (es : List Event) (next_seq : U64) : next_seq ≤ es.foldl bump next_seq := by
  induction es generalizing next_seq with
  | nil => exact le_rfl
  | cons e es ih => exact (le_bump next_seq e).trans (ih _)

theorem eq_max_of_le {a : U64} (h : U64.MAX ≤ a) : a = U64.MAX := by
  have hlt := a.isLt
  rw [Fin.le_def] at h
  simp only [U64.MAX] at h
  exact Fin.ext (by simp only [U64.MAX]; omega)

/-- After loading, the counter is past every loaded event, or pinned at the limit. -/
theorem lt_or_eq_max_foldl_bump {es : List Event} {e : Event} (hmem : e ∈ es) (next_seq : U64) :
    e.seq < es.foldl bump next_seq ∨ es.foldl bump next_seq = U64.MAX := by
  induction es generalizing next_seq with
  | nil => cases hmem
  | cons e' es ih =>
    rcases List.mem_cons.mp hmem with rfl | htail
    · rcases lt_or_eq_max_bump next_seq e with hlt | hmax
      · exact Or.inl (hlt.trans_le (le_foldl_bump es _))
      · exact Or.inr (eq_max_of_le (hmax ▸ le_foldl_bump es _))
    · exact ih htail _

/-- What `open` rebuilds from the log. -/
theorem open_spec (fs : FileSystem) :
    (Store.open fs).2.next_seq = (logged fs).foldl bump 1 ∧
      (Store.open fs).2.recent = (logged fs).rtake RECENT_CAP ∧
      (Store.open fs).2.seen = ((Store.open fs).2.recent.map Event.key).toFinset := by
  unfold Store.open logged
  cases fs.read events_path with
  | none => exact ⟨rfl, rfl, rfl⟩
  | some bytes => simp only [Option.elim_some, load_lines_eq, foldl_push_recent, eventsIn, and_self]

theorem open_fs (fs : FileSystem) : (Store.open fs).1 = (fs.openAppend events_path).1 := rfl

theorem open_log (fs : FileSystem) : (Store.open fs).2.log = (fs.openAppend events_path).2 := rfl

/-- The file loop of `events_after` takes the first `max` later events. -/
theorem collect_after_eq (after : U64) {max : Nat} (lines : List (Option Text)) (out : List Event)
    (hroom : out.length < max) :
    collect_after after max lines out =
      out ++ (((parsedRows lines).map Prod.snd).filter (fun e => after < e.seq)).take (max - out.length) := by
  induction lines generalizing out with
  | nil => simp [collect_after, parsedRows]
  | cons line lines ih =>
    cases line with
    | none => simp [collect_after, parsedRows]
    | some line =>
      rw [collect_after, parsedRows]
      cases parse_line line with
      | none => exact ih out hroom
      | some e =>
        simp only [List.map_cons, List.filter_cons, decide_eq_true_eq]
        by_cases hlater : after < e.seq
        · rw [if_pos hlater, if_pos hlater]
          obtain ⟨room, hroom'⟩ : ∃ k, max - out.length = k + 1 := ⟨max - out.length - 1, by omega⟩
          rw [hroom', List.take_succ_cons]
          by_cases hfull : max ≤ (out ++ [e]).length
          · have hzero : room = 0 := by
              simp only [List.length_append, List.length_singleton] at hfull
              omega
            rw [if_pos hfull, hzero, List.take_zero]
          · rw [if_neg hfull, ih (out ++ [e]) (by omega)]
            have hrest : max - (out ++ [e]).length = room := by
              simp only [List.length_append, List.length_singleton]
              omega
            rw [hrest, List.append_assoc, List.singleton_append]
        · rw [if_neg hlater, if_neg hlater]
          exact ih out hroom

theorem mem_of_mem_collect_after {after : U64} {max : Nat} {lines : List (Option Text)} {out : List Event}
    {e : Event} (h : e ∈ collect_after after max lines out) :
    e ∈ out ∨ (e ∈ (parsedRows lines).map Prod.snd ∧ after < e.seq) := by
  induction lines generalizing out with
  | nil => exact Or.inl h
  | cons line lines ih =>
    cases line with
    | none => exact Or.inl h
    | some line =>
      rw [collect_after] at h
      rw [parsedRows]
      cases hparse : parse_line line with
      | none =>
        rw [hparse] at h
        exact ih h
      | some e' =>
        rw [hparse] at h
        simp only [List.map_cons, List.mem_cons]
        by_cases hlater : after < e'.seq
        · simp only [if_pos hlater] at h
          have hout : e ∈ out ++ [e'] ∨ (e ∈ (parsedRows lines).map Prod.snd ∧ after < e.seq) := by
            split at h
            · exact Or.inl h
            · exact ih h
          rcases hout with hout | hrest
          · rcases List.mem_append.mp hout with hout | hnew
            · exact Or.inl hout
            · rw [List.mem_singleton] at hnew
              exact Or.inr ⟨Or.inl hnew, hnew ▸ hlater⟩
          · exact Or.inr ⟨Or.inr hrest.1, hrest.2⟩
        · simp only [if_neg hlater] at h
          exact (ih h).imp_right fun hrest => ⟨Or.inr hrest.1, hrest.2⟩

end yt_websub.store
