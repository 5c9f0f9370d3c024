import YtWebsub.Base.Utf8

open rust.utf8

namespace rust.text

/-- `char::is_whitespace`: the Unicode `White_Space` property. -/
def isWhitespace (c : Char) : Bool :=
  (0x09 ≤ c.toNat && c.toNat ≤ 0x0D) || c.toNat = 0x20 || c.toNat = 0x85 || c.toNat = 0xA0 ||
    c.toNat = 0x1680 || (0x2000 ≤ c.toNat && c.toNat ≤ 0x200A) || c.toNat = 0x2028 ||
    c.toNat = 0x2029 || c.toNat = 0x202F || c.toNat = 0x205F || c.toNat = 0x3000

/-- `str::trim_start`. -/
def trimStart (s : Text) : Text :=
  s.dropWhile isWhitespace

/-- `str::trim_end`. -/
def trimEnd (s : Text) : Text :=
  s.rdropWhile isWhitespace

/-- `str::trim`. -/
def trim (s : Text) : Text :=
  trimEnd (trimStart s)

/-- `split_inclusive`: the pieces up to and including each separator, and what is left. -/
def splitInclusive {α : Type} [DecidableEq α] (sep : α) : List α → List (List α)
  | [] => []
  | x :: xs =>
    if x = sep then [x] :: splitInclusive sep xs
    else
      match splitInclusive sep xs with
      | [] => [[x]]
      | piece :: pieces => (x :: piece) :: pieces

/-- Removes one final `\n`, and a `\r` before it. -/
def stripEol (s : Text) : Text :=
  match s.reverse with
  | '\n' :: '\r' :: rest => rest.reverse
  | '\n' :: rest => rest.reverse
  | _ => s

/-- `str::lines`. -/
def strLines (s : Text) : List Text :=
  (splitInclusive '\n' s).map stripEol

/-- `BufRead::lines`: each item is a line, or `none` where the bytes are not UTF-8. -/
def readLines (bs : Bytes) : List (Option Text) :=
  (splitInclusive 10 bs).map fun piece => (decode piece).map stripEol

section SplitInclusive

variable {α : Type} [DecidableEq α] {sep : α}

@[simp]
theorem splitInclusive_nil : splitInclusive sep [] = [] := rfl

theorem splitInclusive_of_not_mem {piece : List α} (hne : piece ≠ []) (hsep : sep ∉ piece) :
    splitInclusive sep piece = [piece] := by
  induction piece with
  | nil => exact absurd rfl hne
  | cons x xs ih =>
    obtain ⟨hx, hxs⟩ := not_or.mp (List.mem_cons.not.mp hsep)
    rw [splitInclusive, if_neg (Ne.symm hx)]
    cases xs with
    | nil => rfl
    | cons y ys => rw [ih (by simp) hxs]

/-- A terminated piece is split off whole, whatever follows it. -/
theorem splitInclusive_terminated {piece : List α} (hsep : sep ∉ piece) (rest : List α) :
    splitInclusive sep (piece ++ sep :: rest) = (piece ++ [sep]) :: splitInclusive sep rest := by
  induction piece with
  | nil => simp [splitInclusive]
  | cons x xs ih =>
    obtain ⟨hx, hxs⟩ := not_or.mp (List.mem_cons.not.mp hsep)
    rw [List.cons_append, splitInclusive, if_neg (Ne.symm hx), ih hxs]
    rfl

theorem mem_splitInclusive {xs piece : List α}
    (h : piece ∈ splitInclusive sep xs) : ∃ body, sep ∉ body ∧ (piece = body ++ [sep] ∨ piece = body) := by
  induction xs generalizing piece with
  | nil => cases h
  | cons x xs ih =>
    rw [splitInclusive] at h
    by_cases hx : x = sep
    · rw [if_pos hx] at h
      obtain rfl | h := List.mem_cons.mp h
      · exact ⟨[], List.not_mem_nil, Or.inl (by rw [hx]; rfl)⟩
      · exact ih h
    · rw [if_neg hx] at h
      cases hsplit : splitInclusive sep xs with
      | nil =>
        rw [hsplit] at h
        obtain rfl := List.mem_singleton.mp h
        exact ⟨[x], by simpa using Ne.symm hx, Or.inr rfl⟩
      | cons first rest =>
        rw [hsplit] at h ih
        obtain rfl | h := List.mem_cons.mp h
        · obtain ⟨body, hbody, hfirst⟩ := ih List.mem_cons_self
          refine ⟨x :: body, by simp [hbody, Ne.symm hx], ?_⟩
          obtain rfl | rfl := hfirst
          · exact Or.inl rfl
          · exact Or.inr rfl
        · exact ih (List.mem_cons_of_mem _ h)

end SplitInclusive

theorem not_whitespace_of_isDigit {c : Char} (h : c.isDigit = true) : isWhitespace c = false := by
  simp only [Char.isDigit, Bool.and_eq_true, decide_eq_true_eq] at h
  have hlow : 48 ≤ c.toNat := UInt32.le_iff_toNat_le.mp h.1
  have hhigh : c.toNat ≤ 57 := UInt32.le_iff_toNat_le.mp h.2
  simp only [isWhitespace, Bool.or_eq_false_iff, Bool.and_eq_false_iff, decide_eq_false_iff_not]
  omega

theorem trimStart_of_not_whitespace {s : Text} (h : ∀ c ∈ s, isWhitespace c = false) : trimStart s = s := by
  rw [trimStart, List.dropWhile_eq_self_iff]
  intro hpos
  rw [h _ (List.getElem_mem hpos)]
  decide

/-- Text without white space is already trimmed. -/
theorem trim_of_not_whitespace {s : Text} (h : ∀ c ∈ s, isWhitespace c = false) : trim s = s := by
  rw [trim, trimStart_of_not_whitespace h, trimEnd, List.rdropWhile_eq_self_iff]
  intro hne
  rw [h _ (List.getLast_mem hne)]
  decide

/-- A line that was ended by a newline, as it is read back. -/
def reread (line : Text) : Text :=
  stripEol (line ++ ['\n'])

theorem reread_of_last_ne {line : Text} (h : line.getLast? ≠ some '\r') : reread line = line := by
  unfold reread stripEol
  rw [List.reverse_append, List.reverse_singleton, List.singleton_append]
  cases hrev : line.reverse with
  | nil => simpa using hrev
  | cons c cs =>
    have hline : line = cs.reverse ++ [c] := by
      rw [← List.reverse_reverse line, hrev, List.reverse_cons]
    have hc : c ≠ '\r' := by
      rintro rfl
      exact h (by rw [hline, List.getLast?_concat])
    split
    · rename_i heq
      exact absurd (List.cons.inj (List.cons.inj heq).2).1 hc
    · rename_i heq
      rw [hline, ← (List.cons.inj heq).2, List.reverse_cons]
    · rename_i hnot
      exact absurd rfl (hnot (c :: cs))

theorem reread_concat_cr (line : Text) : reread (line ++ ['\r']) = line := by
  unfold reread stripEol
  simp

/-- The carriage return before a newline is all that is lost. -/
theorem reread_cases (line : Text) :
    (line.getLast? ≠ some '\r' ∧ reread line = line) ∨ line = reread line ++ ['\r'] := by
  by_cases h : line.getLast? = some '\r'
  · obtain ⟨front, rfl⟩ := List.getLast?_eq_some_iff.mp h
    exact Or.inr (by rw [reread_concat_cr])
  · exact Or.inl ⟨h, reread_of_last_ne h⟩

theorem reread_eq_iff {line : Text} : reread line = line ↔ line.getLast? ≠ some '\r' := by
  refine ⟨fun h hcr => ?_, reread_of_last_ne⟩
  obtain ⟨front, rfl⟩ := List.getLast?_eq_some_iff.mp hcr
  rw [reread_concat_cr] at h
  simpa using congrArg List.length h

theorem stripEol_terminated {line : Text} (hcr : '\r' ∉ line) : stripEol (line ++ ['\n']) = line :=
  reread_of_last_ne fun hlast => hcr (List.mem_of_getLast? hlast)

theorem stripEol_of_not_mem {s : Text} (h : '\n' ∉ s) : stripEol s = s := by
  unfold stripEol
  split
  · rename_i heq
    exact absurd (List.mem_reverse.mp (heq ▸ List.mem_cons_self)) h
  · rename_i heq
    exact absurd (List.mem_reverse.mp (heq ▸ List.mem_cons_self)) h
  · rfl

/-- White space at the end does not survive trimming. -/
theorem trim_concat {s : Text} {c : Char} (hc : isWhitespace c = true) : trim (s ++ [c]) = trim s := by
  rw [trim, trim, trimStart, trimStart, trimEnd, trimEnd, List.dropWhile_append]
  split
  · rename_i hempty
    rw [List.isEmpty_iff.mp hempty]
    simp [hc]
  · exact List.rdropWhile_concat_pos _ _ _ hc

theorem trim_reread (line : Text) : trim (reread line) = trim line := by
  obtain ⟨_, h⟩ | h := reread_cases line
  · rw [h]
  · rw [← trim_concat (c := '\r') (by decide), ← h]

theorem trimStart_append_cons {c : Char} (hc : isWhitespace c = false) (front back : Text) :
    trimStart (front ++ c :: back) = trimStart front ++ c :: back := by
  simp only [trimStart]
  rw [List.dropWhile_append]
  split
  · rename_i hempty
    rw [List.isEmpty_iff.mp hempty, List.dropWhile_cons_of_neg (by simp [hc]), List.nil_append]
  · rfl

theorem trimEnd_append_cons {c : Char} (hc : isWhitespace c = false) (front back : Text) :
    trimEnd (front ++ c :: back) = front ++ c :: trimEnd back := by
  have hstart := trimStart_append_cons hc back.reverse front.reverse
  simp only [trimStart] at hstart
  simp only [trimEnd, List.rdropWhile]
  rw [List.reverse_append, List.reverse_cons, List.append_assoc, List.singleton_append, hstart]
  simp only [List.reverse_append, List.reverse_cons, List.reverse_reverse, List.append_assoc, List.singleton_append]

/-- Trimming works on either side of a character that is not white space. -/
theorem trim_append_cons {c : Char} (hc : isWhitespace c = false) (front back : Text) :
    trim (front ++ c :: back) = trimStart front ++ c :: trimEnd back := by
  rw [trim, trimStart_append_cons hc, trimEnd_append_cons hc]

theorem trim_of_blank {s : Text} (h : ∀ c ∈ s, isWhitespace c = true) : trim s = [] := by
  have hstart : trimStart s = [] := List.dropWhile_eq_nil_iff.mpr h
  rw [trim, hstart]
  rfl

theorem blank_or_split (s : Text) :
    (∀ c ∈ s, isWhitespace c = true) ∨ ∃ front c back, s = front ++ c :: back ∧ isWhitespace c = false := by
  by_cases h : ∀ c ∈ s, isWhitespace c = true
  · exact .inl h
  · push Not at h
    obtain ⟨c, hmem, hc⟩ := h
    obtain ⟨front, back, rfl⟩ := List.append_of_mem hmem
    exact .inr ⟨front, c, back, rfl, eq_false_of_ne_true hc⟩

theorem trim_trimStart (s : Text) : trim (trimStart s) = trim s := by
  rw [trim, trim, trimStart, trimStart, List.dropWhile_idempotent]

theorem trim_trimEnd (s : Text) : trim (trimEnd s) = trim s := by
  obtain hblank | ⟨front, c, back, rfl, hc⟩ := blank_or_split s
  · rw [trim_of_blank hblank]
    exact trim_of_blank fun c hmem => hblank c ((List.rdropWhile_prefix isWhitespace s).subset hmem)
  · rw [trimEnd_append_cons hc, trim_append_cons hc, trim_append_cons hc, trimEnd, trimEnd, List.rdropWhile_idempotent]

/-- White space on either side does not survive trimming. -/
theorem trim_padded {lead tail : Text} (hlead : ∀ c ∈ lead, isWhitespace c = true)
    (htail : ∀ c ∈ tail, isWhitespace c = true) (s : Text) : trim (lead ++ s ++ tail) = trim s := by
  have hstart : ∀ t, trimStart (lead ++ t) = trimStart t := fun t => by
    rw [trimStart, List.dropWhile_append_of_pos hlead, trimStart]
  rw [List.append_assoc, ← trim_trimStart, hstart, trim_trimStart]
  induction tail using List.reverseRecOn with
  | nil => rw [List.append_nil]
  | append_singleton tail c ih =>
    have hc := htail c (List.mem_append_right _ (List.mem_singleton_self c))
    rw [← List.append_assoc, trim_concat hc]
    exact ih fun d hmem => htail d (List.mem_append_left _ hmem)

/-- Trimming a second time changes nothing. -/
theorem trim_trim (s : Text) : trim (trim s) = trim s := by
  have hstart : trimStart (trim s) = trim s := by
    rw [trimStart, List.dropWhile_eq_self_iff]
    intro hpos
    have hne : trimStart s ≠ [] := by
      intro hnil
      simp [trim, hnil, trimEnd] at hpos
    have hlength : 0 < (trimStart s).length := List.length_pos_iff.mpr hne
    have hhead : (trim s)[0] = (trimStart s)[0] :=
      (List.rdropWhile_prefix isWhitespace (l := trimStart s)).getElem hpos
    rw [hhead]
    exact List.dropWhile_get_zero_not isWhitespace s hlength
  conv_lhs => rw [trim, hstart]
  exact List.rdropWhile_idempotent _ _

/-- A line does not contain a newline. -/
theorem not_mem_of_mem_strLines {s line : Text} (h : line ∈ strLines s) : '\n' ∉ line := by
  obtain ⟨piece, hpiece, rfl⟩ := List.mem_map.mp h
  obtain ⟨body, hbody, rfl | rfl⟩ := mem_splitInclusive hpiece
  · change '\n' ∉ reread body
    obtain ⟨_, hsame⟩ | hcr := reread_cases body
    · rw [hsame]
      exact hbody
    · rw [hcr] at hbody
      exact fun hmem => hbody (List.mem_append_left _ hmem)
  · rw [stripEol_of_not_mem hbody]
    exact hbody

/-- Lines written one after the other are read back one by one. -/
theorem strLines_flatMap {lines : List Text} (h : ∀ line ∈ lines, '\n' ∉ line) :
    strLines (lines.flatMap fun line => line ++ ['\n']) = lines.map reread := by
  induction lines with
  | nil => rfl
  | cons line lines ih =>
    obtain ⟨hline, hrest⟩ := List.forall_mem_cons.mp h
    rw [List.flatMap_cons, strLines, List.append_assoc, List.singleton_append, splitInclusive_terminated hline,
      List.map_cons, List.map_cons]
    exact congrArg _ (ih hrest)

/-- The last line need not be terminated. -/
theorem strLines_append {lines : List Text} (h : ∀ line ∈ lines, '\n' ∉ line) {last : Text} (hlast : '\n' ∉ last) :
    strLines ((lines.flatMap fun line => line ++ ['\n']) ++ last) =
      lines.map reread ++ if last = [] then [] else [last] := by
  induction lines with
  | nil =>
    rw [List.flatMap_nil, List.nil_append, List.map_nil, List.nil_append]
    split
    · rename_i hnil
      rw [hnil]
      rfl
    · rename_i hne
      rw [strLines, splitInclusive_of_not_mem hne hlast, List.map_singleton, stripEol_of_not_mem hlast]
  | cons line lines ih =>
    obtain ⟨hline, hrest⟩ := List.forall_mem_cons.mp h
    rw [List.flatMap_cons, List.append_assoc, List.append_assoc, strLines, List.singleton_append,
      splitInclusive_terminated hline, List.map_cons, List.map_cons, List.cons_append]
    exact congrArg _ (ih hrest)

/-- An ASCII byte occurs in an encoding only as that character. -/
theorem not_mem_encode {s : Text} {c : Char} (hascii : c.toNat < 0x80) (h : c ∉ s) :
    UInt8.ofNat c.toNat ∉ encode s := by
  intro hmem
  obtain ⟨d, hd, hbyte⟩ := List.mem_flatMap.mp hmem
  by_cases hlow : d.toNat < 0x80
  · rw [encodeChar_ascii hlow, List.mem_singleton] at hbyte
    have heq := congrArg UInt8.toNat hbyte
    simp only [UInt8.toNat_ofNat'] at heq
    have hcd : c = d := Char.toNat_inj.mp (by omega)
    exact h (hcd ▸ hd)
  · have hhigh := high_of_mem_encodeChar (by omega) hbyte
    simp only [UInt8.toNat_ofNat'] at hhigh
    omega

/-- An ASCII byte occurs in an encoding as often as its character in the text. -/
theorem count_encode {c : Char} (hascii : c.toNat < 0x80) (s : Text) :
    (encode s).count (UInt8.ofNat c.toNat) = s.count c := by
  induction s with
  | nil => rfl
  | cons d s ih =>
    rw [encode_cons, List.count_append, ih, List.count_cons, Nat.add_comm]
    congr 1
    by_cases hd : d = c
    · rw [hd, encodeChar_ascii hascii]
      simp
    · have hnot : UInt8.ofNat c.toNat ∉ encode [d] := not_mem_encode hascii (by simpa using Ne.symm hd)
      rw [encode_cons, encode_nil, List.append_nil] at hnot
      rw [List.count_eq_zero.mpr hnot]
      simp [hd]

/-- A complete line without control characters at its end is read back whole. -/
theorem readLines_terminated {line : Text} (hnl : '\n' ∉ line) (hcr : '\r' ∉ line) (rest : Bytes) :
    readLines (encode (line ++ ['\n']) ++ rest) = some line :: readLines rest := by
  have hbyte : (10 : UInt8) ∉ encode line := not_mem_encode (c := '\n') (by decide) hnl
  have hline : encode (line ++ ['\n']) = encode line ++ [10] := encode_append _ _
  rw [readLines, hline, List.append_assoc, List.singleton_append, splitInclusive_terminated hbyte,
    List.map_cons, ← hline, decode_encode, Option.map_some, stripEol_terminated hcr]
  rfl

/-- What is in no column and is not the separator is not in the row. -/
theorem not_mem_intercalate {sep c : Char} (hsep : c ≠ sep) {columns : List Text}
    (hcolumns : ∀ column ∈ columns, c ∉ column) : c ∉ [sep].intercalate columns := by
  induction columns with
  | nil => simp [List.intercalate]
  | cons column columns ih =>
    obtain ⟨hcolumn, hrest⟩ := List.forall_mem_cons.mp hcolumns
    cases columns with
    | nil => simpa using hcolumn
    | cons next columns =>
      rw [List.intercalate_cons_cons]
      simp only [List.mem_append, List.mem_singleton, not_or]
      exact ⟨⟨hcolumn, hsep⟩, ih hrest⟩

/-- Complete lines without control characters at their ends are read back whole. -/
theorem strLines_terminated {lines : List Text} (h : ∀ line ∈ lines, '\n' ∉ line ∧ '\r' ∉ line) :
    strLines (lines.flatMap fun line => line ++ ['\n']) = lines := by
  rw [strLines_flatMap fun line hline => (h line hline).1]
  exact (List.map_congr_left fun line hline => stripEol_terminated (h line hline).2).trans (List.map_id lines)

/-- An unterminated rest is one last item. -/
theorem readLines_of_not_mem {bs : Bytes} (hne : bs ≠ []) (hnl : (10 : UInt8) ∉ bs) :
    readLines bs = [(decode bs).map stripEol] := by
  rw [readLines, splitInclusive_of_not_mem hne hnl]
  rfl

end rust.text
