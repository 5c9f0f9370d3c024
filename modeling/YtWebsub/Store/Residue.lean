import YtWebsub.Store.Framing

open rust rust.utf8 rust.text rust.num rust.fs
open yt_websub.util

namespace yt_websub.store

/-- Bytes end where a line can start. -/
def AtBoundary (bytes : Bytes) : Prop :=
  bytes = [] ∨ bytes.getLast? = some 10

instance (bytes : Bytes) : Decidable (AtBoundary bytes) :=
  inferInstanceAs (Decidable (_ ∨ _))

theorem AtBoundary.line (bytes : Bytes) (e : Event) : AtBoundary (bytes ++ encode (format_line e)) := by
  have hline : encode (format_line e) = encode e.row ++ [10] := encode_append _ _
  rw [hline, ← List.append_assoc]
  exact Or.inr List.getLast?_concat

/-- A row is of the first line, if that can be read, or of a later one. -/
theorem of_mem_parsedRows_cons {line : Option Text} {lines : List (Option Text)} {e : Event}
    (h : e ∈ (parsedRows (line :: lines)).map Prod.snd) :
    (∃ text, line = some text ∧ parse_line text = some e) ∨ e ∈ (parsedRows lines).map Prod.snd := by
  cases line with
  | none => cases h
  | some text =>
    rw [parsedRows] at h
    cases hparse : parse_line text with
    | none =>
      rw [hparse] at h
      exact Or.inr h
    | some first =>
      rw [hparse] at h
      obtain rfl | h := List.mem_cons.mp h
      · exact Or.inl ⟨text, rfl, hparse⟩
      · exact Or.inr h

/-- No line that begins with this column has a number up to `n`. -/
def Above (n : U64) (column : Text) : Prop :=
  ∀ m, parse 64 column = some m → n < m

/-- A piece of a line that begins with a whole column of digits above `n`. -/
def Headed (n : U64) (piece : Bytes) : Prop :=
  10 ∉ piece ∧ ∃ digits : Text, (∀ c ∈ digits, c.isDigit = true) ∧ Above n digits ∧
    encode (digits ++ ['\t']) <+: piece

/-- What may stand before the next append in the last line: digits only, or a number above `n`. -/
def Pending (n : U64) (piece : Bytes) : Prop :=
  (∃ digits : Text, (∀ c ∈ digits, c.isDigit = true) ∧ piece = encode digits) ∨ Headed n piece

theorem Pending.nil (n : U64) : Pending n [] :=
  Or.inl ⟨[], by simp, rfl⟩

theorem not_mem_digits {digits : Text} (h : ∀ c ∈ digits, c.isDigit = true) {c : Char} (hc : c.isDigit = false) :
    c ∉ digits := fun hmem => by
  rw [h c hmem] at hc
  cases hc

/-- A line read from such a piece has a number above `n`. -/
theorem Headed.lt_seq {n : U64} {piece : Bytes} (h : Headed n piece) {text : Text} {tail : Bytes}
    (hdecode : decode (piece ++ tail) = some text) {e : Event} (hparse : parse_line (stripEol text) = some e) :
    n < e.seq := by
  obtain ⟨_, digits, hdigits, habove, hpre⟩ := h
  have htab := not_mem_digits hdigits (c := '\t') (by decide)
  have htext : digits ++ ['\t'] <+: text := by
    apply prefix_of_encode_prefix
    rw [encode_of_decode hdecode]
    exact hpre.trans (List.prefix_append _ _)
  unfold parse_line at hparse
  split at hparse
  · rename_i seq received_at kind channel_id video_id ts title hsplit
    obtain hshort | ⟨rest, hline⟩ := List.prefix_or_prefix_of_prefix (stripEol_initial text) htext
    · -- The line ends before the tab: it has fewer columns.
      obtain heq | hshort := List.prefix_concat_iff.mp hshort
      · rw [heq, List.splitOn_append_cons_self_of_not_mem htab] at hsplit
        simp at hsplit
      · rw [List.splitOn_eq_singleton fun hmem => htab (hshort.subset hmem)] at hsplit
        simp at hsplit
    · rw [← hline, List.append_assoc, List.singleton_append, List.splitOn_append_cons_self_of_not_mem htab] at hsplit
      have hseq := (List.cons.inj hsplit).1
      split at hparse
      · rename_i m _ hm _
        rw [Option.some.injEq] at hparse
        rw [← hparse]
        exact habove m (by rw [hseq]; exact hm)
      · cases hparse
  · cases hparse

theorem Headed.of_mem_eventsIn {n : U64} {piece : Bytes} (h : Headed n piece) {rest : Bytes} {e : Event}
    (he : e ∈ eventsIn (piece ++ 10 :: rest)) : n < e.seq ∨ e ∈ eventsIn rest := by
  rw [eventsIn, readLines, splitInclusive_terminated h.1, List.map_cons] at he
  obtain ⟨line, hline, hparse⟩ | he := of_mem_parsedRows_cons he
  · obtain ⟨text, hdecode, rfl⟩ := Option.map_eq_some_iff.mp hline
    exact Or.inl (h.lt_seq hdecode hparse)
  · exact Or.inr he

/-- What stands in the last line is read as that line. -/
theorem of_mem_eventsIn_last {piece : Bytes} (hnl : (10 : UInt8) ∉ piece) {e : Event} (he : e ∈ eventsIn piece) :
    ∃ text, decode piece = some text ∧ parse_line (stripEol text) = some e := by
  have hne : piece ≠ [] := fun hnil => by
    rw [hnil] at he
    cases he
  rw [eventsIn, readLines_of_not_mem hne hnl] at he
  obtain ⟨line, hline, hparse⟩ | he := of_mem_parsedRows_cons he
  · obtain ⟨text, hdecode, rfl⟩ := Option.map_eq_some_iff.mp hline
    exact ⟨text, hdecode, hparse⟩
  · cases he

theorem Pending.of_mem_eventsIn {n : U64} {piece : Bytes} (h : Pending n piece) {e : Event} (he : e ∈ eventsIn piece) :
    n < e.seq := by
  obtain ⟨digits, hdigits, rfl⟩ | hheaded := h
  · -- Digits alone are a line of one column.
    have hnl := not_mem_digits hdigits (c := '\n') (by decide)
    obtain ⟨text, hdecode, hparse⟩ := of_mem_eventsIn_last (not_mem_encode (c := '\n') (by decide) hnl) he
    rw [decode_encode, Option.some.injEq] at hdecode
    rw [← hdecode, stripEol_of_not_mem hnl, parse_line,
      List.splitOn_eq_singleton (not_mem_digits hdigits (by decide))] at hparse
    cases hparse
  · obtain ⟨text, hdecode, hparse⟩ := of_mem_eventsIn_last hheaded.1 he
    exact hheaded.lt_seq (by rwa [List.append_nil]) hparse

/-- Of such a piece a torn one keeps the column or some digits. -/
theorem Headed.initial {n : U64} {piece torn : Bytes} (h : Headed n piece) (htorn : torn <+: piece) :
    Pending n torn := by
  obtain ⟨hnl, digits, hdigits, habove, hpre⟩ := h
  obtain hshort | hlong := List.prefix_or_prefix_of_prefix htorn hpre
  · rw [encode_append] at hshort
    obtain heq | hshort := List.prefix_concat_iff.mp hshort
    · exact Or.inr ⟨fun hmem => hnl (htorn.subset hmem), digits, hdigits, habove, by rw [heq, encode_append]; rfl⟩
    · have hascii : ∀ c ∈ digits, c.toNat < 0x80 := fun c hc => by
        have hdigit := hdigits c hc
        simp only [Char.isDigit, Bool.and_eq_true, decide_eq_true_eq] at hdigit
        have hle : c.toNat ≤ 57 := UInt32.le_iff_toNat_le.mp hdigit.2
        omega
      refine Or.inl ⟨digits.take torn.length, fun c hc => hdigits c (List.mem_of_mem_take hc), ?_⟩
      rw [encode_ascii fun c hc => hascii c (List.mem_of_mem_take hc), List.map_take, ← encode_ascii hascii]
      exact List.prefix_iff_eq_take.mp hshort
  · exact Or.inr ⟨fun hmem => hnl (htorn.subset hmem), digits, hdigits, habove, hlong⟩

/-- Bytes that are read as events with numbers above `n` only, also behind what appends
that failed have left in the last line. -/
def NumbersAbove (n : U64) (bytes : Bytes) : Prop :=
  ∀ piece, Pending n piece → ∀ e ∈ eventsIn (piece ++ bytes), n < e.seq

theorem NumbersAbove.nil (n : U64) : NumbersAbove n [] := by
  intro piece hpiece e he
  rw [List.append_nil] at he
  exact hpiece.of_mem_eventsIn he

theorem NumbersAbove.lt_seq {n : U64} {bytes : Bytes} (h : NumbersAbove n bytes) {e : Event} (he : e ∈ eventsIn bytes) :
    n < e.seq :=
  h [] (.nil n) e he

end yt_websub.store
