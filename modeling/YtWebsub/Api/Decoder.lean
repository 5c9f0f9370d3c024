import YtWebsub.Api.RoundTrip
import YtWebsub.Base.Json

open rust rust.utf8 rust.text
open json

namespace yt_websub.api

/-- The body is an object with the one member `channels`, whose value is the array of these
literals, and they stand for the strings. -/
def Encodes (strings : List Text) (literals : List (List Piece)) (body : Text) : Prop :=
  List.Forall₂ Stands literals strings ∧
    ∃ key, Stands key "channels".toList ∧ Complete (.object [(key, .array (literals.map .string))]) body

/-- What the scanner makes of a piece. -/
def Scanned : Piece → Text
  | .plain c => [c]
  | .escape c => [unescape c]
  | .unicode a b c d => ['u', a, b, c, d]

/-- The pieces that the scanner reads as what they stand for, within the array. -/
def Understood : Piece → Prop
  | .plain c => c ≠ ']'
  | .escape c => c ≠ 'b' ∧ c ≠ 'f'
  | .unicode _ _ _ _ => False

instance : ∀ p, Decidable (Understood p)
  | .plain c => inferInstanceAs (Decidable (c ≠ ']'))
  | .escape c => inferInstanceAs (Decidable (c ≠ 'b' ∧ c ≠ 'f'))
  | .unicode _ _ _ _ => isFalse id

/-- The scanner reads a literal to its closing quote. -/
theorem scan_literals_quote {ps : List Piece} (hvalid : ∀ p ∈ ps, p.Valid) (current rest : Text) :
    scan_literals (some current) (ps.flatMap Piece.text ++ '"' :: rest) =
      push_literal (current ++ ps.flatMap Scanned) (scan_literals none rest) := by
  induction ps generalizing current with
  | nil => simp [scan_literals]
  | cons p ps ih =>
    obtain ⟨hp, hps⟩ := List.forall_mem_cons.mp hvalid
    have hstep : scan_literals (some current) (p.text ++ (ps.flatMap Piece.text ++ '"' :: rest)) =
        scan_literals (some (current ++ Scanned p)) (ps.flatMap Piece.text ++ '"' :: rest) := by
      have hplain : ∀ (c : Char) (current tail : Text), c ≠ '"' → c ≠ '\\' →
          scan_literals (some current) (c :: tail) = scan_literals (some (current ++ [c])) tail := by
        intro c current tail hquote hbackslash
        rw [scan_literals] <;> simp_all
      cases p with
      | plain c => exact hplain c _ _ hp.1 hp.2.1
      | escape c => rfl
      | unicode a b c d =>
        have hdigit : ∀ digit ∈ [a, b, c, d], digit ≠ '"' ∧ digit ≠ '\\' := by
          intro digit hmem
          have hrange := hexDigit_range (hp digit hmem)
          constructor <;> rintro rfl <;> simp at hrange
        simp only [List.forall_mem_cons] at hdigit
        obtain ⟨ha, hb, hc, hd, _⟩ := hdigit
        have hu : unescape 'u' = 'u' := rfl
        simp only [Piece.text, List.cons_append, List.nil_append, scan_literals, hu, hplain _ _ _ ha.1 ha.2,
          hplain _ _ _ hb.1 hb.2, hplain _ _ _ hc.1 hc.2, hplain _ _ _ hd.1 hd.2, List.append_assoc, Scanned]
    rw [List.flatMap_cons, List.append_assoc, hstep, ih hps, List.flatMap_cons, List.append_assoc]

/-- What is not a quote is skipped between the literals. -/
theorem scan_literals_skip {skipped : Text} (h : '"' ∉ skipped) (rest : Text) :
    scan_literals none (skipped ++ rest) = scan_literals none rest := by
  induction skipped with
  | nil => rfl
  | cons c skipped ih =>
    obtain ⟨hc, hskipped⟩ := not_or.mp (List.mem_cons.not.mp h)
    rw [List.cons_append, scan_literals, ih hskipped]
    exact Ne.symm hc

theorem not_mem_of_blank {s : Text} (h : json.Blank s) {c : Char} (hc : c ∉ [' ', '\t', '\n', '\r']) : c ∉ s :=
  fun hmem => hc (h c hmem)

/-- The list without its empty entries. -/
def nonempty (entries : List Text) : List Text :=
  entries.filter (· ≠ [])

theorem nonempty_cons (s : Text) (entries : List Text) :
    nonempty (s :: entries) = if s = [] then nonempty entries else s :: nonempty entries := by
  by_cases h : s = [] <;> simp [nonempty, h]

/-- The strings that the scanner reads from the array of these literals. -/
def scanned (literals : List (List Piece)) : List Text :=
  literals.map fun literal => trim (literal.flatMap Scanned)

theorem nonempty_scanned_cons (literal : List Piece) (literals : List (List Piece)) :
    nonempty (scanned (literal :: literals)) = push_literal (literal.flatMap Scanned) (nonempty (scanned literals)) :=
  nonempty_cons ..

/-- The scanner reads an array literal by literal. -/
theorem scan_literals_items {literals : List (List Piece)} {text : Text}
    (h : RendersItems (literals.map .string) text) :
    (∀ literal ∈ literals, ∀ p ∈ literal, p.Valid) ∧ scan_literals none text = nonempty (scanned literals) := by
  have hskip : ∀ {blank : Text}, json.Blank blank → '"' ∉ blank := fun hblank => not_mem_of_blank hblank (by decide)
  induction literals generalizing text with
  | nil =>
    cases h with
    | none hblank =>
      refine ⟨fun _ hmem => absurd hmem List.not_mem_nil, ?_⟩
      rw [← List.append_nil text, scan_literals_skip (hskip hblank)]
      rfl
  | cons literal literals ih =>
    have hstep : ∀ {before after rest : Text}, json.Blank before → '"' ∉ after →
        (∀ p ∈ literal, p.Valid) → scan_literals none rest = nonempty (scanned literals) →
        scan_literals none (before ++ (quote literal ++ (after ++ rest))) =
          nonempty (scanned (literal :: literals)) := by
      intro before after rest hbefore hafter hvalid hrest
      rw [scan_literals_skip (hskip hbefore), quote, List.cons_append, List.cons_append, scan_literals,
        List.append_assoc, List.singleton_append, scan_literals_quote hvalid, scan_literals_skip hafter, hrest,
        nonempty_scanned_cons, List.nil_append]
    cases literals with
    | nil =>
      cases h with
      | last hbefore hliteral hafter =>
        cases hliteral with
        | string hvalid =>
          refine ⟨by simpa using hvalid, ?_⟩
          rw [List.append_assoc, ← List.append_nil (_ ++ _), List.append_assoc, List.append_assoc]
          exact hstep hbefore (hskip hafter) hvalid rfl
    | cons next literals =>
      cases h with
      | cons hbefore hliteral hafter hrest =>
        cases hliteral with
        | string hvalid =>
          obtain ⟨hvalids, hread⟩ := ih hrest
          refine ⟨List.forall_mem_cons.mpr ⟨hvalid, hvalids⟩, ?_⟩
          rw [List.append_assoc, List.append_assoc, ← List.singleton_append, ← List.append_assoc _ [',']]
          exact hstep hbefore (by simpa using hskip hafter) hvalid hread

/-- The characters that are not white space. -/
def solid (s : Text) : Text :=
  s.filter fun c => !isWhitespace c

theorem solid_append (s t : Text) : solid (s ++ t) = solid s ++ solid t :=
  List.filter_append ..

theorem solid_cons (c : Char) (s : Text) : solid (c :: s) = solid [c] ++ solid s :=
  solid_append [c] s

theorem solid_eq_nil {s : Text} (h : ∀ c ∈ s, isWhitespace c = true) : solid s = [] :=
  List.filter_eq_nil_iff.mpr fun c hc => by simp [h c hc]

theorem solid_eq_self {s : Text} (h : ∀ c ∈ s, isWhitespace c = false) : solid s = s :=
  List.filter_eq_self.mpr fun c hc => by simp [h c hc]

/-- Trimming takes white space only. -/
theorem solid_trim (s : Text) : solid (trim s) = solid s := by
  have hstart : solid (trimStart s) = solid s := by
    conv_rhs => rw [← List.takeWhile_append_dropWhile (p := isWhitespace) (l := s)]
    rw [solid_append, solid_eq_nil fun c hc => List.mem_takeWhile_imp hc]
    rfl
  have hend : solid (trimEnd (trimStart s)) = solid (trimStart s) := by
    conv_rhs => rw [← List.rdropWhile_append_rtakeWhile (p := isWhitespace) (l := trimStart s)]
    rw [solid_append, solid_eq_nil fun c hc => List.mem_rtakeWhile_imp hc]
    exact (List.append_nil _).symm
  exact hend.trans hstart

theorem mem_solid {c : Char} {s : Text} (hc : isWhitespace c = false) : c ∈ solid s ↔ c ∈ s := by
  simp [solid, hc]

theorem mem_trim {c : Char} {s : Text} (hc : isWhitespace c = false) : c ∈ trim s ↔ c ∈ s := by
  rw [← mem_solid hc, solid_trim, mem_solid hc]

theorem trim_eq_nil {s : Text} (h : solid s = []) : trim s = [] := by
  have hall : ∀ c ∈ s, isWhitespace c = true := by simpa [solid] using h
  rw [trim, trimStart, List.dropWhile_eq_nil_iff.mpr hall]
  rfl

theorem hexDigit_solid {c : Char} (h : (hexDigit c).isSome) : isWhitespace c = false := by
  have hrange := hexDigit_range h
  simp only [isWhitespace, Bool.or_eq_false_iff, Bool.and_eq_false_iff, decide_eq_false_iff_not]
  omega

theorem solid_unicode {a b c d : Char} (h : (Piece.unicode a b c d).Valid) :
    solid (Scanned (.unicode a b c d)) = ['u', a, b, c, d] := by
  apply solid_eq_self
  intro x hx
  obtain rfl | hx := List.mem_cons.mp hx
  · rfl
  · exact hexDigit_solid (h x hx)

theorem solid_length_le_one (c : Char) : (solid [c]).length ≤ 1 :=
  List.length_filter_le ..

/-- The escapes that the scanner knows. -/
theorem unescape_cases {e c : Char} (h : escapes.lookup e = some c.toNat) :
    unescape e = c ∨ (e = 'b' ∧ c = '\x08') ∨ (e = 'f' ∧ c = '\x0c') := by
  have hkey : e ∈ escapes.map Prod.fst := by
    by_contra hnot
    have hnone : escapes.lookup e = none := by
      refine List.lookup_eq_none_iff.mpr fun pair hpair => bne_iff_ne.mpr ?_
      rintro rfl
      exact hnot (List.mem_map_of_mem hpair)
    rw [hnone] at h
    cases h
  have hvalue : ∀ x : Char, escapes.lookup e = some x.toNat → c = x := fun x hx =>
    Char.toNat_inj.mp (Option.some.inj (h.symm.trans hx))
  simp only [escapes, List.map_cons, List.map_nil, List.mem_cons, List.not_mem_nil, or_false] at hkey
  rcases hkey with rfl | rfl | rfl | rfl | rfl | rfl | rfl | rfl
  · exact Or.inl (hvalue '"' rfl).symm
  · exact Or.inl (hvalue '\\' rfl).symm
  · exact Or.inl (hvalue '/' rfl).symm
  · exact Or.inr (Or.inl ⟨rfl, hvalue '\x08' rfl⟩)
  · exact Or.inr (Or.inr ⟨rfl, hvalue '\x0c' rfl⟩)
  · exact Or.inl (hvalue '\n' rfl).symm
  · exact Or.inl (hvalue '\r' rfl).symm
  · exact Or.inl (hvalue '\t' rfl).symm

/-- The scanner never loses a character that is not white space. -/
theorem solid_length_le {ps : List Piece} {s : Text} (hvalid : ∀ p ∈ ps, p.Valid) (h : Aligned ps s) :
    (solid s).length ≤ (solid (ps.flatMap Scanned)).length := by
  induction h with
  | nil => exact le_rfl
  | @plain c ps s _ ih =>
    rw [List.flatMap_cons, solid_append, solid_cons, List.length_append, List.length_append]
    exact Nat.add_le_add_left (ih (List.forall_mem_cons.mp hvalid).2) _
  | @escape e c ps s hvalue _ ih =>
    have hrest := ih (List.forall_mem_cons.mp hvalid).2
    have hone := solid_length_le_one c
    rw [List.flatMap_cons, solid_append, solid_cons, List.length_append, List.length_append]
    obtain rfl | ⟨rfl, rfl⟩ | ⟨rfl, rfl⟩ := unescape_cases hvalue
    · exact Nat.add_le_add_left hrest _
    · exact Nat.add_le_add (by decide) hrest
    · exact Nat.add_le_add (by decide) hrest
  | @unicode a b c' d c ps s _ ih =>
    obtain ⟨hp, hps⟩ := List.forall_mem_cons.mp hvalid
    have hrest := ih hps
    have hone := solid_length_le_one c
    rw [List.flatMap_cons, solid_append, solid_cons, List.length_append, List.length_append, solid_unicode hp]
    simp only [List.length_cons, List.length_nil]
    omega
  | @pair a b c' d _ _ _ _ c ps s _ ih =>
    obtain ⟨hp, hps⟩ := List.forall_mem_cons.mp hvalid
    have hrest := ih (List.forall_mem_cons.mp hps).2
    have hone := solid_length_le_one c
    rw [List.flatMap_cons, List.flatMap_cons, solid_append, solid_append, solid_cons, List.length_append,
      List.length_append, List.length_append, solid_unicode hp]
    simp only [List.length_cons, List.length_nil]
    omega

/-- A literal in which every piece is understood is read as its string. -/
theorem scanned_eq {ps : List Piece} {s : Text} (h : Aligned ps s) (hall : ∀ p ∈ ps, Understood p) :
    ps.flatMap Scanned = s := by
  induction h with
  | nil => rfl
  | plain _ ih =>
    rw [List.flatMap_cons, ih (List.forall_mem_cons.mp hall).2]
    rfl
  | escape hvalue _ ih =>
    obtain ⟨⟨hb, hf⟩, hrest⟩ := List.forall_mem_cons.mp hall
    rw [List.flatMap_cons, ih hrest]
    obtain rfl | ⟨he, _⟩ | ⟨he, _⟩ := unescape_cases hvalue
    · rfl
    · exact absurd he hb
    · exact absurd he hf
  | unicode => exact absurd (List.forall_mem_cons.mp hall).1 id
  | pair => exact absurd (List.forall_mem_cons.mp hall).1 id

/-- A literal that is read as its string, white space aside, has no piece that is not
understood, as long as the array is not cut short in it. -/
theorem understood_of_solid {ps : List Piece} {s : Text} (hvalid : ∀ p ∈ ps, p.Valid) (hraw : .plain ']' ∉ ps)
    (h : Aligned ps s) (hsame : solid (ps.flatMap Scanned) = solid s) : ∀ p ∈ ps, Understood p := by
  induction h with
  | nil => exact fun _ hmem => absurd hmem List.not_mem_nil
  | @plain c ps s _ ih =>
    obtain ⟨hc, hraw⟩ := not_or.mp (List.mem_cons.not.mp hraw)
    rw [List.flatMap_cons, solid_append, solid_cons c s] at hsame
    refine List.forall_mem_cons.mpr ⟨fun heq => hc (congrArg _ heq.symm), ?_⟩
    exact ih (List.forall_mem_cons.mp hvalid).2 hraw (List.append_cancel_left hsame)
  | @escape e c ps s hvalue hrest ih =>
    have hraw := (not_or.mp (List.mem_cons.not.mp hraw)).2
    have hvalid := (List.forall_mem_cons.mp hvalid).2
    have hle := solid_length_le hvalid hrest
    rw [List.flatMap_cons, solid_append, solid_cons c s] at hsame
    obtain rfl | ⟨rfl, rfl⟩ | ⟨rfl, rfl⟩ := unescape_cases hvalue
    · refine List.forall_mem_cons.mpr ⟨⟨?_, ?_⟩, ih hvalid hraw (List.append_cancel_left hsame)⟩
      · rintro rfl
        cases hvalue
      · rintro rfl
        cases hvalue
    · -- A `b` is read where the string has a backspace.
      cases (List.cons.inj hsame).1
    · -- An `f` is read where the string has white space.
      have hlength := congrArg List.length hsame
      have hone : (solid (Scanned (.escape 'f'))).length = 1 := rfl
      have hnone : (solid ['\x0c']).length = 0 := rfl
      rw [List.length_append, List.length_append, hone, hnone] at hlength
      omega
  | @unicode a b c' d c ps s hrest ih =>
    obtain ⟨hp, hps⟩ := List.forall_mem_cons.mp hvalid
    have hle := solid_length_le hps hrest
    have hone := solid_length_le_one c
    have hlength := congrArg List.length hsame
    rw [List.flatMap_cons, solid_append, solid_cons c s, solid_unicode hp, List.length_append,
      List.length_append] at hlength
    simp only [List.length_cons, List.length_nil] at hlength
    omega
  | @pair a b c' d _ _ _ _ c ps s hrest ih =>
    obtain ⟨hp, hps⟩ := List.forall_mem_cons.mp hvalid
    have hle := solid_length_le (List.forall_mem_cons.mp hps).2 hrest
    have hone := solid_length_le_one c
    have hlength := congrArg List.length hsame
    rw [List.flatMap_cons, List.flatMap_cons, solid_append, solid_append, solid_cons c s, solid_unicode hp,
      List.length_append, List.length_append, List.length_append] at hlength
    simp only [List.length_cons, List.length_nil] at hlength
    omega

/-- A bracket in a literal stands for itself, and is not escaped. -/
theorem eq_plain_of_mem_text {p : Piece} (hp : p.Valid) {c : Char} (hc : c = '[' ∨ c = ']') (hmem : c ∈ p.text) :
    p = .plain c := by
  cases p with
  | plain x => rw [List.mem_singleton.mp hmem]
  | escape e =>
    have hkey : e ∈ escapes.map Prod.fst := hp
    obtain rfl | hmem := List.mem_cons.mp hmem
    · simp at hc
    · obtain rfl := List.mem_singleton.mp hmem
      rcases hc with rfl | rfl <;> simp [escapes] at hkey
  | unicode h i j k =>
    obtain rfl | hmem := List.mem_cons.mp hmem
    · simp at hc
    obtain rfl | hmem := List.mem_cons.mp hmem
    · simp at hc
    have hrange := hexDigit_range (hp c hmem)
    rcases hc with rfl | rfl <;> simp at hrange

theorem not_mem_quote {ps : List Piece} (hvalid : ∀ p ∈ ps, p.Valid) {c : Char} (hc : c = '[' ∨ c = ']')
    (hraw : .plain c ∉ ps) : c ∉ quote ps := by
  have hquote : c ≠ '"' := by
    rcases hc with rfl | rfl <;> decide
  have htext : c ∉ ps.flatMap Piece.text := by
    intro hmem
    obtain ⟨p, hp, hmem⟩ := List.mem_flatMap.mp hmem
    exact hraw (eq_plain_of_mem_text (hvalid p hp) hc hmem ▸ hp)
  simp [quote, hquote, htext]

/-- A plain character of the literal is one of the string. -/
theorem mem_of_plain {ps : List Piece} {s : Text} (h : Aligned ps s) {c : Char} (hmem : .plain c ∈ ps) : c ∈ s := by
  induction h with
  | nil => cases hmem
  | plain _ ih =>
    obtain heq | hmem := List.mem_cons.mp hmem
    · cases heq
      exact List.mem_cons_self
    · exact List.mem_cons_of_mem _ (ih hmem)
  | escape _ _ ih => exact List.mem_cons_of_mem _ (ih ((List.mem_cons.mp hmem).resolve_left (by simp)))
  | unicode _ ih => exact List.mem_cons_of_mem _ (ih ((List.mem_cons.mp hmem).resolve_left (by simp)))
  | pair _ ih =>
    have hmem := (List.mem_cons.mp hmem).resolve_left (by simp)
    exact List.mem_cons_of_mem _ (ih ((List.mem_cons.mp hmem).resolve_left (by simp)))

/-- No bracket stands between the literals of an array. -/
theorem not_mem_items {literals : List (List Piece)} {text : Text} (h : RendersItems (literals.map .string) text)
    (hraw : ∀ literal ∈ literals, .plain ']' ∉ literal) : ']' ∉ text := by
  have hblank : ∀ {blank : Text}, json.Blank blank → ']' ∉ blank := fun hblank => not_mem_of_blank hblank (by decide)
  induction literals generalizing text with
  | nil =>
    cases h with
    | none h => exact hblank h
  | cons literal literals ih =>
    obtain ⟨hliteral, hrest⟩ := List.forall_mem_cons.mp hraw
    cases literals with
    | nil =>
      cases h with
      | last hbefore hrendered hafter =>
        cases hrendered with
        | string hvalid => simp [hblank hbefore, hblank hafter, not_mem_quote hvalid (Or.inr rfl) hliteral]
    | cons next literals =>
      cases h with
      | cons hbefore hrendered hafter hitems =>
        cases hrendered with
        | string hvalid =>
          simp [hblank hbefore, hblank hafter, not_mem_quote hvalid (Or.inr rfl) hliteral, ih hitems hrest]

/-- The body up to the bracket of the array, the array, and what follows it. -/
theorem encoded_cases {strings : List Text} {literals : List (List Piece)} {body : Text}
    (h : Encodes strings literals body) :
    ∃ start text rest, body = start ++ '[' :: (text ++ ']' :: rest) ∧ '[' ∉ start ∧
      RendersItems (literals.map .string) text := by
  obtain ⟨_, key, hkey, before, inner, after, hbefore, hinner, hafter, rfl⟩ := h
  cases hinner with
  | object hmembers =>
    cases hmembers with
    | @last _ _ before' colon value array after' hbefore' hvalid hcolon hvalue harray hafter' =>
      cases harray with
      | @array _ text hitems =>
        have hblank : ∀ {blank : Text}, json.Blank blank → '[' ∉ blank :=
          fun hblank => not_mem_of_blank hblank (by decide)
        have hquote : '[' ∉ quote key := not_mem_quote hvalid (Or.inl rfl) fun hmem =>
          absurd (mem_of_plain (hkey.aligned hvalid) hmem) (by decide)
        refine ⟨before ++ '{' :: (before' ++ quote key ++ colon ++ ':' :: value), text, after' ++ '}' :: after,
          by simp, ?_, hitems⟩
        simp [hblank hbefore, hblank hbefore', hblank hcolon, hblank hvalue, hquote]

/-- The scanner reads what stands before the first closing bracket. -/
theorem extract_string_array_eq {start rest : Text} (h : '[' ∉ start) :
    extract_string_array (start ++ '[' :: rest) =
      scan_literals none (rest.take ((find [']'] rest).getD rest.length)) := by
  have hdrop : (start ++ '[' :: rest).drop (start.length + 1) = rest := by
    rw [← List.drop_drop, List.drop_left]
    rfl
  rw [extract_string_array, find_singleton h]
  simp only [hdrop]

/-- A character that the scanner reads is one of the text, or stands for one after a backslash. -/
theorem mem_scan {c : Char} (hsolid : isWhitespace c = false) {current : Option Text} {text s : Text}
    (hs : s ∈ scan_literals current text) (hmem : c ∈ s) : c ∈ current.getD [] ∨ c ∈ text := by
  have hpush : ∀ {literal : Text} {out : List Text}, s ∈ push_literal literal out → c ∈ literal ∨ s ∈ out := by
    intro literal out hs
    unfold push_literal at hs
    split at hs
    · exact Or.inr hs
    · obtain rfl | hs := List.mem_cons.mp hs
      · exact Or.inl ((mem_trim hsolid).mp hmem)
      · exact Or.inr hs
  have hunescape : ∀ x, c = unescape x → c = x := by
    intro x hx
    unfold unescape at hx
    split at hx
    · cases hx
      cases hsolid
    · cases hx
      cases hsolid
    · cases hx
      cases hsolid
    · exact hx
  fun_induction scan_literals current text with
  | case1 => cases hs
  | case2 cs ih => exact Or.inr (List.mem_cons_of_mem _ ((ih hs).resolve_left List.not_mem_nil))
  | case3 x cs hx ih => exact Or.inr (List.mem_cons_of_mem _ ((ih hs).resolve_left List.not_mem_nil))
  | case4 literal => exact Or.inl ((hpush hs).resolve_right List.not_mem_nil)
  | case5 literal x cs ih =>
    obtain hcurrent | htext := ih hs
    · obtain hliteral | hx := List.mem_append.mp hcurrent
      · exact Or.inl hliteral
      · obtain rfl := hunescape x (List.mem_singleton.mp hx)
        exact Or.inr (by simp)
    · exact Or.inr (by simp [htext])
  | case6 literal => exact Or.inl ((hpush hs).resolve_right List.not_mem_nil)
  | case7 literal cs ih =>
    obtain hliteral | hs := hpush hs
    · exact Or.inl hliteral
    · exact Or.inr (List.mem_cons_of_mem _ ((ih hs).resolve_left List.not_mem_nil))
  | case8 literal x cs _ _ _ ih =>
    obtain hcurrent | htext := ih hs
    · obtain hliteral | hx := List.mem_append.mp hcurrent
      · exact Or.inl hliteral
      · exact Or.inr (List.mem_singleton.mp hx ▸ List.mem_cons_self)
    · exact Or.inr (List.mem_cons_of_mem _ htext)

/-- Lists that agree without their empty entries agree, if no entry of the first is empty
beside one of the second that is not. -/
theorem eq_of_nonempty_eq {gs fs : List Text} (h : List.Forall₂ (fun g f => g = [] → f = []) gs fs) :
    (nonempty fs).length ≤ (nonempty gs).length ∧ (nonempty gs = nonempty fs → gs = fs) := by
  induction h with
  | nil => exact ⟨le_rfl, fun _ => rfl⟩
  | @cons g f gs fs hhead _ ih =>
    obtain ⟨hle, heq⟩ := ih
    rw [nonempty_cons, nonempty_cons]
    by_cases hg : g = []
    · rw [if_pos hg, if_pos (hhead hg)]
      exact ⟨hle, fun hsame => by rw [heq hsame, hg, hhead hg]⟩
    · rw [if_neg hg]
      by_cases hf : f = []
      · rw [if_pos hf, List.length_cons]
        refine ⟨by omega, fun hsame => ?_⟩
        have hlength := congrArg List.length hsame
        rw [List.length_cons] at hlength
        omega
      · rw [if_neg hf]
        refine ⟨Nat.succ_le_succ hle, fun hsame => ?_⟩
        obtain ⟨rfl, hrest⟩ := List.cons.inj hsame
        rw [heq hrest]

/-- The literals are valid, and aligned with the strings. -/
def Written (literals : List (List Piece)) (strings : List Text) : Prop :=
  List.Forall₂ (fun literal s => (∀ p ∈ literal, p.Valid) ∧ Aligned literal s) literals strings

/-- A string that is read empty is empty. -/
theorem trim_eq_nil_of_scanned {ps : List Piece} {s : Text} (hvalid : ∀ p ∈ ps, p.Valid) (h : Aligned ps s)
    (hnil : trim (ps.flatMap Scanned) = []) : trim s = [] := by
  have hle := solid_length_le hvalid h
  have hnone : solid (ps.flatMap Scanned) = [] := by rw [← solid_trim, hnil]; rfl
  rw [hnone] at hle
  exact trim_eq_nil (List.eq_nil_of_length_eq_zero (Nat.le_zero.mp hle))

/-- One literal is read as its string, trimmed, exactly when all of it is understood. -/
theorem trim_scanned_iff {ps : List Piece} {s : Text} (hvalid : ∀ p ∈ ps, p.Valid) (h : Aligned ps s)
    (hraw : .plain ']' ∉ ps) : trim (ps.flatMap Scanned) = trim s ↔ ∀ p ∈ ps, Understood p := by
  constructor
  · intro hsame
    refine understood_of_solid hvalid hraw h ?_
    rw [← solid_trim, hsame, solid_trim]
  · intro hall
    rw [scanned_eq h hall]

theorem scanned_iff {literals : List (List Piece)} {strings : List Text} (h : Written literals strings)
    (hraw : ∀ literal ∈ literals, .plain ']' ∉ literal) :
    scanned literals = strings.map trim ↔ ∀ literal ∈ literals, ∀ p ∈ literal, Understood p := by
  induction h with
  | nil => exact iff_of_true rfl fun _ hmem => absurd hmem List.not_mem_nil
  | cons hhead _ ih =>
    obtain ⟨hliteral, hrest⟩ := List.forall_mem_cons.mp hraw
    rw [List.forall_mem_cons, ← trim_scanned_iff hhead.1 hhead.2 hliteral, ← ih hrest]
    exact List.cons_eq_cons

theorem mem_string_of_plain {literals : List (List Piece)} {strings : List Text} (h : Written literals strings)
    {literal : List Piece} (hliteral : literal ∈ literals) {c : Char} (hmem : .plain c ∈ literal) :
    ∃ s ∈ strings, c ∈ s := by
  induction h with
  | nil => cases hliteral
  | @cons _ s _ _ hhead _ ih =>
    obtain rfl | hliteral := List.mem_cons.mp hliteral
    · exact ⟨s, List.mem_cons_self, mem_of_plain hhead.2 hmem⟩
    · obtain ⟨s, hs, hc⟩ := ih hliteral
      exact ⟨s, List.mem_cons_of_mem _ hs, hc⟩

/-- A bare `]` is in a string, and in nothing the scanner reads. -/
theorem not_plain_of_read {literals : List (List Piece)} {strings : List Text} (h : Written literals strings)
    {rest : Text} (hread : scan_literals none (rest.take ((find [']'] rest).getD rest.length)) =
      nonempty (strings.map trim)) :
    ∀ literal ∈ literals, .plain ']' ∉ literal := by
  intro literal hliteral hmem
  obtain ⟨s, hs, hbracket⟩ := mem_string_of_plain h hliteral hmem
  have hsolid : isWhitespace ']' = false := by decide
  have hkept : ']' ∈ trim s := (mem_trim hsolid).mpr hbracket
  have hentry : trim s ∈ nonempty (strings.map trim) :=
    List.mem_filter.mpr ⟨List.mem_map_of_mem hs, decide_eq_true (List.ne_nil_of_mem hkept)⟩
  obtain hnone | htext := mem_scan hsolid (hread ▸ hentry) hkept
  · cases hnone
  · exact not_mem_take_find ']' rest htext

/-- The scanner inverts the encoding of a list of strings exactly when no string is written
with a bare `]`, a `\b`, a `\f` or a `\u` escape. -/
theorem decodes_iff {strings : List Text} {literals : List (List Piece)} {body : Text}
    (h : Encodes strings literals body) :
    extract_string_array body = (strings.map trim).filter (· ≠ []) ↔
      ∀ literal ∈ literals, ∀ p ∈ literal, Understood p := by
  obtain ⟨start, text, rest, rfl, hstart, hitems⟩ := encoded_cases h
  obtain ⟨hvalid, hscan⟩ := scan_literals_items hitems
  have hwritten : Written literals strings :=
    ((List.forall₂_and_left _ _).mpr ⟨hvalid, h.1⟩).imp fun _ _ hboth => ⟨hboth.1, hboth.2.aligned hboth.1⟩
  have hwhole : (∀ literal ∈ literals, .plain ']' ∉ literal) →
      extract_string_array (start ++ '[' :: (text ++ ']' :: rest)) = nonempty (scanned literals) := by
    intro hraw
    rw [extract_string_array_eq hstart, find_singleton (not_mem_items hitems hraw), Option.getD_some, List.take_left,
      hscan]
  constructor
  · intro hread
    have hraw := not_plain_of_read hwritten ((extract_string_array_eq hstart).symm.trans hread)
    rw [hwhole hraw] at hread
    have hempty : List.Forall₂ (fun g f => g = [] → f = []) (scanned literals) (strings.map trim) :=
      List.forall₂_map_left_iff.mpr (List.forall₂_map_right_iff.mpr
        (hwritten.imp fun _ _ hpair => trim_eq_nil_of_scanned hpair.1 hpair.2))
    exact (scanned_iff hwritten hraw).mp ((eq_of_nonempty_eq hempty).2 hread)
  · intro hall
    have hraw : ∀ literal ∈ literals, .plain ']' ∉ literal := fun literal hliteral hmem =>
      hall literal hliteral _ hmem rfl
    rw [hwhole hraw, (scanned_iff hwritten hraw).mpr hall]
    rfl

/-- The body with one string, without insignificant whitespace. -/
theorem encodes_one {ps : List Piece} {s : Text} (hvalid : ∀ p ∈ ps, p.Valid) (hstands : Stands ps s) :
    Encodes [s] [ps] ("\x7b\"channels\":[".toList ++ quote ps ++ "]\x7d".toList) := by
  have hblank : json.Blank [] := fun _ hmem => absurd hmem List.not_mem_nil
  have hkey : ∀ p ∈ "channels".toList.map Piece.plain, p.Valid := by decide
  have harray : Renders (.array [.string ps]) ('[' :: ([] ++ quote ps ++ []) ++ [']']) :=
    .array (.last hblank (.string hvalid) hblank)
  have hobject : Renders (.object [("channels".toList.map Piece.plain, .array [.string ps])])
      ('{' :: ([] ++ quote ("channels".toList.map Piece.plain) ++ [] ++ ':' :: [] ++
        ('[' :: ([] ++ quote ps ++ []) ++ [']']) ++ []) ++ ['}']) :=
    .object (.last hblank hkey hblank hblank harray hblank)
  refine ⟨.cons hstands .nil, "channels".toList.map Piece.plain, by decide, [], _, [], hblank, hobject, hblank, ?_⟩
  simp [quote, Piece.text]

/-- A channel with an escaped solidus and white space around it. -/
theorem decodes_iff_solidus :
    extract_string_array "\x7b\"channels\":[\" @a\\/b \"]\x7d".toList = ["@a/b".toList] :=
  have hencodes : Encodes [" @a/b ".toList]
      [[.plain ' ', .plain '@', .plain 'a', .escape '/', .plain 'b', .plain ' ']]
      "\x7b\"channels\":[\" @a\\/b \"]\x7d".toList :=
    encodes_one (by decide) (by decide)
  (decodes_iff hencodes).mpr (by decide)

/-- A letter that an encoder writes with `\u` is read as the letter `u` and its four digits. -/
theorem unicode_escape_mangled :
    ∃ strings literals body, Encodes strings literals body ∧
      extract_string_array body ≠ (strings.map trim).filter (· ≠ []) :=
  ⟨["@é".toList], [[.plain '@', .unicode '0' '0' 'e' '9']], "\x7b\"channels\":[\"@\\u00e9\"]\x7d".toList,
    encodes_one (by decide) (by decide), by decide +kernel⟩

end yt_websub.api
