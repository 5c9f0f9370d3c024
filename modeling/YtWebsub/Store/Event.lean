import YtWebsub.Base.Num
import YtWebsub.Util

open rust rust.utf8 rust.text rust.num
open yt_websub.util

namespace yt_websub.store

structure Event where
  seq : U64
  received_at : U64
  kind : Text
  channel_id : Text
  video_id : Text
  ts : Text
  title : Text
deriving DecidableEq

def dedup_key (video_id ts kind : Text) : Text :=
  video_id ++ '|' :: ts ++ '|' :: kind

def Event.key (e : Event) : Text :=
  dedup_key e.video_id e.ts e.kind

/-- The seven columns of a log line. -/
def Event.columns (e : Event) : List Text :=
  [to_string e.seq, to_string e.received_at, pct_encode e.kind, pct_encode e.channel_id,
    pct_encode e.video_id, pct_encode e.ts, pct_encode e.title]

/-- The line without its newline. -/
def Event.row (e : Event) : Text :=
  ['\t'].intercalate e.columns

def format_line (e : Event) : Text :=
  e.row ++ ['\n']

def parse_line (line : Text) : Option Event :=
  match line.splitOn '\t' with
  | [seq, received_at, kind, channel_id, video_id, ts, title] =>
    match parse 64 seq, parse 64 received_at with
    | some seq, some received_at =>
      some {
        seq, received_at
        kind := pct_decode kind
        channel_id := pct_decode channel_id
        video_id := pct_decode video_id
        ts := pct_decode ts
        title := pct_decode title }
    | _, _ => none
  | _ => none

/-- No column contains a control character, so none can break the framing. -/
theorem Event.not_mem_columns {e : Event} {c : Char} (hc : c.toNat < 0x20) :
    ∀ column ∈ e.columns, c ∉ column := by
  have hdigit : c.isDigit = false := by
    have hlow : ¬ '0'.val ≤ c.val := by
      intro hle
      have hnat : 48 ≤ c.toNat := UInt32.le_iff_toNat_le.mp hle
      omega
    simp only [Char.isDigit, Bool.and_eq_false_iff, decide_eq_false_iff_not]
    exact Or.inl hlow
  have htext : ∀ s, c ∉ pct_encode s := by
    intro s hmem
    have hprintable := printable_of_mem_pct_encode hmem
    omega
  simp only [Event.columns, List.mem_cons, List.not_mem_nil, or_false, forall_eq_or_imp, forall_eq]
  exact ⟨not_mem_to_string hdigit, not_mem_to_string hdigit, htext _, htext _, htext _, htext _, htext _⟩

/-- A row contains no control character but its tabs. -/
theorem Event.not_mem_row {e : Event} {c : Char} (hc : c.toNat < 0x20) (htab : c ≠ '\t') : c ∉ e.row :=
  not_mem_intercalate htab (e.not_mem_columns hc)

theorem Event.splitOn_row (e : Event) : e.row.splitOn '\t' = e.columns :=
  List.splitOn_intercalate '\t' (e.not_mem_columns (by decide)) (by simp [Event.columns])

/-- A line is at least as long as the title it carries. -/
theorem Event.title_length_le (e : Event) : e.title.length ≤ (encode (format_line e)).length := by
  have hrow : pct_encode e.title <:+ e.row := by
    simp only [Event.row, Event.columns, List.intercalate_cons_cons, List.intercalate_singleton]
    repeat' apply List.suffix_append_of_suffix
    exact List.suffix_rfl
  have hline : pct_encode e.title <:+: format_line e := hrow.isInfix.trans (List.prefix_append _ _).isInfix
  calc e.title.length ≤ (pct_encode e.title).length := length_le_pct_encode e.title
    _ ≤ (format_line e).length := hline.length_le
    _ ≤ (encode (format_line e)).length := length_le_encode _

/-- A written line is read back as the event it was written for. -/
@[simp]
theorem parse_line_row (e : Event) : parse_line e.row = some e := by
  rw [parse_line, e.splitOn_row]
  simp [Event.columns]

/-- A prefix that reaches past a separator contains the whole first column. -/
theorem exists_of_prefix_of_mem {α : Type} {s column rest : List α} {sep : α}
    (hpre : s <+: column ++ sep :: rest) (hmem : sep ∈ s) (hcolumn : sep ∉ column) :
    ∃ s', s = column ++ sep :: s' := by
  have hlen : column.length < s.length := by
    by_contra hnot
    have hle : s.length ≤ column.length := by omega
    have hsub : s <+: column := List.prefix_of_prefix_length_le hpre (List.prefix_append _ _) hle
    exact hcolumn (hsub.subset hmem)
  have hcol : column ++ [sep] <+: s := by
    refine List.prefix_of_prefix_length_le (show column ++ [sep] <+: column ++ sep :: rest from ⟨rest, by simp⟩) hpre ?_
    simpa using hlen
  obtain ⟨s', hs'⟩ := hcol
  exact ⟨s', by simpa using hs'.symm⟩

/-- A torn row that still parses carries the sequence number it was written with:
seven columns mean that the first one is whole. -/
theorem parse_line_prefix {e e' : Event} {s : Text} (hpre : s <+: e.row) (hparse : parse_line s = some e') :
    e'.seq = e.seq := by
  have hrow : e.row = to_string e.seq ++ '\t' :: ['\t'].intercalate e.columns.tail := rfl
  have htab : '\t' ∈ s := by
    by_contra hnot
    rw [parse_line, List.splitOn_eq_singleton hnot] at hparse
    cases hparse
  have hdigits : '\t' ∉ to_string e.seq := not_mem_to_string (by decide)
  obtain ⟨s', rfl⟩ := exists_of_prefix_of_mem (hrow ▸ hpre) htab hdigits
  rw [parse_line, List.splitOn_append_cons_self_of_not_mem hdigits] at hparse
  split at hparse
  · rename_i heq
    simp only [List.cons.injEq] at heq
    rw [← heq.1, parse_to_string] at hparse
    split at hparse
    · rename_i seq received_at hseq _
      simp only [Option.some.injEq] at hseq hparse
      rw [← hparse, hseq]
    · cases hparse
  · cases hparse

end yt_websub.store
