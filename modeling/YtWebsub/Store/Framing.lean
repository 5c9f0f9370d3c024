import YtWebsub.Store.Compaction

open rust rust.utf8 rust.text rust.num rust.fs
open yt_websub.util

namespace yt_websub.store

/-- The tabs seen since the last newline, after these bytes. -/
def tabsAfter : Nat → Bytes → Nat
  | n, [] => n
  | n, b :: bs => tabsAfter (if b = 10 then 0 else if b = 9 then n + 1 else n) bs

/-- No `|` and no `%` stands before the fifth tab of any line; `n` tabs precede. -/
def framed : Nat → Bytes → Bool
  | _, [] => true
  | n, b :: bs =>
    (5 ≤ n || (b ≠ 124 && b ≠ 37)) && framed (if b = 10 then 0 else if b = 9 then n + 1 else n) bs

theorem framed_append (n : Nat) (bs bs' : Bytes) :
    framed n (bs ++ bs') = (framed n bs && framed (tabsAfter n bs) bs') := by
  induction bs generalizing n with
  | nil => rfl
  | cons b bs ih => rw [List.cons_append, framed, framed, tabsAfter, ih, Bool.and_assoc]

/-- Bytes that are framed at a line start are framed anywhere. -/
theorem framed_mono {n m : Nat} (hle : n ≤ m) {bs : Bytes} (h : framed n bs = true) : framed m bs = true := by
  induction bs generalizing n m with
  | nil => rfl
  | cons b bs ih =>
    obtain ⟨hb, hbs⟩ := Bool.and_eq_true_iff.mp h
    refine Bool.and_eq_true_iff.mpr ⟨?_, ?_⟩
    · simp only [Bool.or_eq_true, decide_eq_true_eq] at hb ⊢
      exact hb.imp_left fun hn => hn.trans hle
    · split
      · rename_i hnl
        simp only [if_pos hnl] at hbs
        exact hbs
      · rename_i hnl
        simp only [if_neg hnl] at hbs
        refine ih ?_ hbs
        split <;> omega

theorem framed_of_initial {n : Nat} {bs bs' : Bytes} (hpre : bs <+: bs') (h : framed n bs' = true) :
    framed n bs = true := by
  obtain ⟨rest, rfl⟩ := hpre
  rw [framed_append] at h
  exact (Bool.and_eq_true_iff.mp h).1

/-- What is added keeps the framing, wherever the last line stands. -/
theorem framed_add {bs bs' : Bytes} (h : framed 0 bs = true) (h' : framed 0 bs' = true) :
    framed 0 (bs ++ bs') = true := by
  rw [framed_append, h, Bool.true_and]
  exact framed_mono (Nat.zero_le _) h'

theorem tabsAfter_le (n : Nat) (bs : Bytes) : tabsAfter n bs ≤ n + bs.count 9 := by
  induction bs generalizing n with
  | nil => exact le_rfl
  | cons b bs ih =>
    rw [tabsAfter]
    refine (ih _).trans ?_
    rw [List.count_cons]
    by_cases hnl : b = 10
    · rw [if_pos hnl]
      omega
    · rw [if_neg hnl]
      by_cases htab : b = 9
      · simp [htab]
        omega
      · simp [htab]

/-- Bytes without `|` and `%` are framed. -/
theorem framed_of_not_mem {n : Nat} {bs : Bytes} (hbar : 124 ∉ bs) (hpercent : 37 ∉ bs) : framed n bs = true := by
  induction bs generalizing n with
  | nil => rfl
  | cons b bs ih =>
    obtain ⟨hb, hbs⟩ := not_or.mp (List.mem_cons.not.mp hbar)
    obtain ⟨hb', hbs'⟩ := not_or.mp (List.mem_cons.not.mp hpercent)
    rw [framed, ih hbs hbs', Bool.and_true]
    simp [Ne.symm hb, Ne.symm hb']

theorem framed_of_le {n : Nat} (h : 5 ≤ n) {bs : Bytes} (hnl : 10 ∉ bs) : framed n bs = true := by
  induction bs generalizing n with
  | nil => rfl
  | cons b bs ih =>
    obtain ⟨hb, hbs⟩ := not_or.mp (List.mem_cons.not.mp hnl)
    rw [framed, if_neg (Ne.symm hb)]
    simp only [h, decide_true, Bool.true_or, Bool.true_and]
    split
    · exact ih (by omega) hbs
    · exact ih h hbs

theorem framed_splitInclusive {n : Nat} {bs : Bytes} (h : framed n bs = true) :
    (∀ first rest, splitInclusive 10 bs = first :: rest → framed n first = true) ∧
      ∀ piece ∈ (splitInclusive 10 bs).tail, framed 0 piece = true := by
  induction bs generalizing n with
  | nil => simp
  | cons b bs ih =>
    obtain ⟨hb, hbs⟩ := Bool.and_eq_true_iff.mp h
    obtain ⟨hfirst, hrest⟩ := ih hbs
    rw [splitInclusive]
    by_cases hnl : b = 10
    · simp only [if_pos hnl] at hfirst ⊢
      refine ⟨fun first rest heq => ?_, fun piece hpiece => ?_⟩
      · rw [← (List.cons.inj heq).1, framed, hb]
        rfl
      · cases hsplit : splitInclusive 10 bs with
        | nil => simp [hsplit] at hpiece
        | cons first rest =>
          rw [List.tail_cons, hsplit] at hpiece
          rcases List.mem_cons.mp hpiece with rfl | hmem
          · exact hfirst _ _ hsplit
          · exact hrest piece (hsplit ▸ hmem)
    · simp only [if_neg hnl] at hfirst ⊢
      cases hsplit : splitInclusive 10 bs with
      | nil =>
        refine ⟨fun first rest heq => ?_, fun piece hpiece => absurd hpiece List.not_mem_nil⟩
        rw [← (List.cons.inj heq).1, framed, hb]
        rfl
      | cons first' rest' =>
        refine ⟨fun first rest heq => ?_, fun piece hpiece => hrest piece (hsplit ▸ hpiece)⟩
        rw [← (List.cons.inj heq).1, framed, hb, if_neg hnl, hfirst _ _ hsplit]
        rfl

/-- Every line of framed bytes is framed. -/
theorem framed_of_mem_splitInclusive {bs : Bytes} (h : framed 0 bs = true) {piece : Bytes}
    (hpiece : piece ∈ splitInclusive 10 bs) : framed 0 piece = true := by
  obtain ⟨hfirst, hrest⟩ := framed_splitInclusive h
  cases hsplit : splitInclusive 10 bs with
  | nil => simp [hsplit] at hpiece
  | cons first rest =>
    rw [hsplit] at hpiece hrest
    rcases List.mem_cons.mp hpiece with rfl | hmem
    · exact hfirst _ _ hsplit
    · exact hrest piece hmem

theorem stripEol_initial (s : Text) : stripEol s <+: s := by
  have hrev : ∀ t rest : Text, s.reverse = t ++ rest → rest.reverse <+: s := by
    intro t rest heq
    refine ⟨t.reverse, ?_⟩
    rw [← List.reverse_append, ← heq, List.reverse_reverse]
  unfold stripEol
  split
  · rename_i rest heq
    exact hrev ['\n', '\r'] rest heq
  · rename_i rest _ heq
    exact hrev ['\n'] rest heq
  · exact List.prefix_rfl

theorem encode_initial {s t : Text} (h : s <+: t) : encode s <+: encode t := by
  obtain ⟨rest, rfl⟩ := h
  exact ⟨encode rest, (encode_append s rest).symm⟩

/-- Every line read from framed bytes is framed. -/
theorem framed_of_mem_readLines {bs : Bytes} (h : framed 0 bs = true) {line : Text}
    (hline : some line ∈ readLines bs) : framed 0 (encode line) = true := by
  obtain ⟨piece, hpiece, hsome⟩ := List.mem_map.mp hline
  obtain ⟨text, htext, rfl⟩ := Option.map_eq_some_iff.mp hsome
  have hframed := framed_of_mem_splitInclusive h hpiece
  rw [← encode_of_decode htext] at hframed
  exact framed_of_initial (encode_initial (stripEol_initial text)) hframed

/-- The framing of a text, character by character. -/
theorem framed_encode_cons {n : Nat} {c : Char} {s : Text} (h : framed n (encode (c :: s)) = true) :
    (n < 5 → c ≠ '|' ∧ c ≠ '%') ∧ framed (if c = '\t' then n + 1 else n) (encode s) = true := by
  rw [encode_cons, framed_append] at h
  obtain ⟨hc, hs⟩ := Bool.and_eq_true_iff.mp h
  refine ⟨fun hn => ⟨?_, ?_⟩, ?_⟩
  · rintro rfl
    have hfive : framed n [124] = true := hc
    simp [framed] at hfive
    omega
  · rintro rfl
    have hfive : framed n [37] = true := hc
    simp [framed] at hfive
    omega
  · by_cases htab : c = '\t'
    · subst htab
      exact hs
    · have hnot : (9 : UInt8) ∉ encode [c] := not_mem_encode (c := '\t') (by decide) (by simpa using Ne.symm htab)
      rw [encode_cons, encode_nil, List.append_nil] at hnot
      rw [if_neg htab]
      refine framed_mono ?_ hs
      have hle := tabsAfter_le n (String.utf8EncodeChar c)
      rw [List.count_eq_zero.mpr hnot] at hle
      omega

/-- The columns of a framed line before the sixth contain no `|` and no `%`. -/
theorem not_mem_column {n : Nat} {s : Text} (h : framed n (encode s) = true) {i : Nat} {column : Text}
    (hcolumn : (s.splitOn '\t')[i]? = some column) (hi : n + i < 5) : '|' ∉ column ∧ '%' ∉ column := by
  induction s generalizing n i column with
  | nil =>
    rw [List.splitOn_nil] at hcolumn
    have hnil : column = [] := by simpa using List.mem_of_getElem? hcolumn
    simp [hnil]
  | cons c s ih =>
    obtain ⟨hc, hs⟩ := framed_encode_cons h
    rw [List.splitOn_cons_eq_if_modifyHead] at hcolumn
    by_cases htab : c = '\t'
    · rw [if_pos htab] at hs
      rw [if_pos (by simpa using htab)] at hcolumn
      cases i with
      | zero =>
        simp only [List.getElem?_cons_zero, Option.some.injEq] at hcolumn
        simp [← hcolumn]
      | succ i => exact ih hs hcolumn (by omega)
    · rw [if_neg htab] at hs
      rw [if_neg (by simpa using htab), List.getElem?_modifyHead] at hcolumn
      cases i with
      | zero =>
        obtain ⟨head, hhead, rfl⟩ := Option.map_eq_some_iff.mp hcolumn
        obtain ⟨hbar, hpercent⟩ := ih hs hhead hi
        obtain ⟨hc, hc'⟩ := hc (by omega)
        simp only [List.mem_cons, not_or]
        exact ⟨⟨hc.symm, hbar⟩, hc'.symm, hpercent⟩
      | succ i => exact ih hs hcolumn hi

/-- The two parts of the deduplication key that come first and last contain no separator. -/
def Event.Unambiguous (e : Event) : Prop :=
  '|' ∉ e.video_id ∧ '|' ∉ e.kind

/-- An event read from a framed line has an unambiguous key. -/
theorem unambiguous_of_parse_line {line : Text} (h : framed 0 (encode line) = true) {e : Event}
    (hparse : parse_line line = some e) : e.Unambiguous := by
  unfold parse_line at hparse
  split at hparse
  · rename_i seq received_at kind channel_id video_id ts title hsplit
    split at hparse
    · simp only [Option.some.injEq] at hparse
      have hkind := not_mem_column h (i := 2) (by rw [hsplit]; rfl) (by omega)
      have hvideo := not_mem_column h (i := 4) (by rw [hsplit]; rfl) (by omega)
      subst hparse
      refine ⟨?_, ?_⟩
      · rw [pct_decode_of_not_mem hvideo.2]
        exact hvideo.1
      · rw [pct_decode_of_not_mem hkind.2]
        exact hkind.1
    · cases hparse
  · cases hparse

theorem mem_of_mem_parsedRows {lines : List (Option Text)} {row : Text × Event} (h : row ∈ parsedRows lines) :
    some row.1 ∈ lines ∧ parse_line row.1 = some row.2 := by
  induction lines with
  | nil => cases h
  | cons line lines ih =>
    cases line with
    | none => cases h
    | some line =>
      rw [parsedRows] at h
      cases hparse : parse_line line with
      | none =>
        rw [hparse] at h
        exact (ih h).imp_left (List.mem_cons_of_mem _)
      | some e =>
        rw [hparse] at h
        rcases List.mem_cons.mp h with rfl | h
        · exact ⟨List.mem_cons_self, hparse⟩
        · exact (ih h).imp_left (List.mem_cons_of_mem _)

/-- Every event in framed bytes has an unambiguous key. -/
theorem unambiguous_of_mem_eventsIn {bytes : Bytes} (h : framed 0 bytes = true) {e : Event}
    (he : e ∈ eventsIn bytes) : e.Unambiguous := by
  obtain ⟨row, hrow, rfl⟩ := List.mem_map.mp he
  obtain ⟨hline, hparse⟩ := mem_of_mem_parsedRows hrow
  exact unambiguous_of_parse_line (framed_of_mem_readLines h hline) hparse

/-- Compaction keeps the framing. -/
theorem framed_copy_lines {bytes : Bytes} (h : framed 0 bytes = true) (keep_above : U64) :
    framed 0 (copy_lines keep_above (readLines bytes) [] 0).1 = true := by
  rw [copy_lines_eq, List.nil_append]
  have hlines : ∀ rows : List (Text × Event), (∀ row ∈ rows, framed 0 (encode row.1) = true) →
      framed 0 (rows.flatMap fun row => encode row.1 ++ [10]) = true := by
    intro rows
    induction rows with
    | nil => exact fun _ => rfl
    | cons row rows ih =>
      intro hrows
      rw [List.flatMap_cons]
      refine framed_add (framed_add (hrows row List.mem_cons_self) rfl) (ih fun row' hrow' => ?_)
      exact hrows row' (List.mem_cons_of_mem _ hrow')
  refine hlines _ fun row hrow => ?_
  exact framed_of_mem_readLines h (mem_of_mem_parsedRows (List.mem_of_mem_filter hrow)).1

theorem le_tabsAfter {n : Nat} {bs : Bytes} (hnl : 10 ∉ bs) : n ≤ tabsAfter n bs := by
  induction bs generalizing n with
  | nil => exact le_rfl
  | cons b bs ih =>
    obtain ⟨hb, hbs⟩ := not_or.mp (List.mem_cons.not.mp hnl)
    rw [tabsAfter, if_neg (Ne.symm hb)]
    refine le_trans ?_ (ih hbs)
    split <;> omega

/-- A column without `|` and `%` can stand in front of any framed rest. -/
theorem framed_column {n : Nat} {column rest : Text} (hbar : '|' ∉ column) (hpercent : '%' ∉ column)
    (hnl : '\n' ∉ column) (h : framed (n + 1) (encode rest) = true) :
    framed n (encode (column ++ '\t' :: rest)) = true := by
  have hcolumn : framed n (encode column) = true :=
    framed_of_not_mem (not_mem_encode (c := '|') (by decide) hbar) (not_mem_encode (c := '%') (by decide) hpercent)
  have hle : n ≤ tabsAfter n (encode column) := le_tabsAfter (not_mem_encode (c := '\n') (by decide) hnl)
  have hrest := framed_mono (Nat.succ_le_succ hle) h
  rw [encode_append, framed_append, hcolumn, Bool.true_and, encode_cons, encodeChar_ascii (c := '\t') (by decide),
    List.singleton_append, framed]
  exact Bool.and_eq_true_iff.mpr ⟨by simp, hrest⟩

/-- A line whose first five columns contain no `|` and no `%` is framed. -/
theorem framed_format_line {e : Event}
    (h : ∀ s ∈ [e.kind, e.channel_id, e.video_id], '|' ∉ pct_encode s ∧ '%' ∉ pct_encode s) :
    framed 0 (encode (format_line e)) = true := by
  simp only [List.mem_cons, List.not_mem_nil, or_false, forall_eq_or_imp, forall_eq] at h
  obtain ⟨hkind, hchannel, hvideo⟩ := h
  have hnl := e.not_mem_columns (c := '\n') (by decide)
  simp only [Event.columns, List.mem_cons, List.not_mem_nil, or_false, forall_eq_or_imp, forall_eq] at hnl
  obtain ⟨hnl0, hnl1, hnl2, hnl3, hnl4, hnl5, hnl6⟩ := hnl
  have hline : format_line e = to_string e.seq ++ '\t' :: (to_string e.received_at ++ '\t' ::
      (pct_encode e.kind ++ '\t' :: (pct_encode e.channel_id ++ '\t' :: (pct_encode e.video_id ++ '\t' ::
        (pct_encode e.ts ++ '\t' :: pct_encode e.title ++ ['\n']))))) := by
    simp [format_line, Event.row, Event.columns, List.intercalate]
  rw [hline]
  refine framed_column (not_mem_to_string (by decide)) (not_mem_to_string (by decide)) hnl0 ?_
  refine framed_column (not_mem_to_string (by decide)) (not_mem_to_string (by decide)) hnl1 ?_
  refine framed_column hkind.1 hkind.2 hnl2 (framed_column hchannel.1 hchannel.2 hnl3 ?_)
  refine framed_column hvideo.1 hvideo.2 hnl4 ?_
  rw [encode_append, framed_append]
  have hrest : '\n' ∉ pct_encode e.ts ++ '\t' :: pct_encode e.title := by
    simp only [List.mem_append, List.mem_cons, not_or]
    exact ⟨hnl5, by decide, hnl6⟩
  rw [framed_of_le (by omega) (not_mem_encode (c := '\n') (by decide) hrest), Bool.true_and]
  exact framed_of_not_mem (by decide) (by decide)

/-- The key of an event and the key of a call agree only if the events do, the
separator being absent from both ends. -/
theorem dedup_key_injective {video_id ts kind video_id' ts' kind' : Text}
    (hvideo : '|' ∉ video_id) (hvideo' : '|' ∉ video_id') (hkind : '|' ∉ kind) (hkind' : '|' ∉ kind')
    (h : dedup_key video_id ts kind = dedup_key video_id' ts' kind') :
    video_id = video_id' ∧ ts = ts' ∧ kind = kind' := by
  have hfirst : ∀ (s s' t t' : Text), '|' ∉ s → '|' ∉ s' → s ++ '|' :: t = s' ++ '|' :: t' → s = s' ∧ t = t' := by
    intro s s' t t' hs hs' heq
    have hsplit := congrArg (List.splitOn '|') heq
    rw [List.splitOn_append_cons_self_of_not_mem hs, List.splitOn_append_cons_self_of_not_mem hs'] at hsplit
    have hsame := (List.cons.inj hsplit).1
    subst hsame
    exact ⟨rfl, by simpa using heq⟩
  simp only [dedup_key, List.append_assoc, List.cons_append] at h
  obtain ⟨rfl, hrest⟩ := hfirst _ _ _ _ hvideo hvideo' h
  -- The kind is what follows the last separator.
  have hrev := congrArg List.reverse hrest
  simp only [List.reverse_append, List.reverse_cons, List.append_assoc, List.singleton_append] at hrev
  obtain ⟨hkinds, hts⟩ := hfirst _ _ _ _ (by simpa using hkind) (by simpa using hkind') hrev
  exact ⟨rfl, List.reverse_injective hts, List.reverse_injective hkinds⟩

end yt_websub.store
