import YtWebsub.Atom
import YtWebsub.Base.Rewrite

open rust.utf8 rust.text
open rewrite

namespace yt_websub.atom

/-- The entities, with what they stand for, in the order of the replacements. -/
def entities : List (Rule Char) :=
  [("&lt;".toList, '<'), ("&gt;".toList, '>'), ("&quot;".toList, '"'), ("&#39;".toList, '\''),
    ("&apos;".toList, '\''), ("&amp;".toList, '&')]

theorem entities_marked : Marked '&' entities := by
  have hmarked : ∀ r ∈ entities, r.1 = '&' :: r.1.tail ∧ '&' ∉ r.1.tail := by decide
  exact fun r hr => ⟨r.1.tail, hmarked r hr⟩

/-- Only the last replacement writes a character of an entity. -/
theorem entities_inert : Inert entities := by
  unfold Inert entities
  decide

/-- What stands for a character of an escaped text: itself, or an entity. -/
inductive Piece where
  | plain (c : { c : Char // c ≠ '&' ∧ c ≠ '<' })
  | entity (i : Fin entities.length)

def Piece.text : Piece → Text
  | .plain c => [c.val]
  | .entity i => (entities.get i).1

def Piece.value : Piece → Char
  | .plain c => c.val
  | .entity i => (entities.get i).2

/-- A text that is escaped with any mixture of the entities. -/
abbrev Escaped := List Piece

/-- As it stands in the document. -/
def Escaped.text (s : Escaped) : Text :=
  s.flatMap Piece.text

/-- What it stands for. -/
def Escaped.value (s : Escaped) : Text :=
  s.map Piece.value

/-- The six replacements are one pass. -/
theorem decode_entities_eq_pass (s : Text) : decode_entities s = pass entities s := by
  rw [← foldl_pass entities_marked entities_inert]
  simp only [decode_entities, replace_eq_pass]
  rfl

theorem pass_text (s : Escaped) : pass entities s.text = s.value := by
  induction s with
  | nil => rfl
  | cons p s ih =>
    change pass entities (p.text ++ Escaped.text s) = p.value :: Escaped.value s
    rw [← ih]
    cases p with
    | plain c => exact pass_of_none (matching_of_ne entities_marked c.property.1 _)
    | entity i =>
      have hfirst : ∀ i : Fin entities.length, ∀ rest : Text,
          matching entities ((entities.get i).1 ++ rest) = some (entities.get i) := by
        intro i rest
        fin_cases i <;> rfl
      exact pass_of_some entities_marked (hfirst i _)

theorem decode_entities_text (s : Escaped) : decode_entities s.text = s.value :=
  (decode_entities_eq_pass s.text).trans (pass_text s)

/-- Escapes only what has to be. -/
def Piece.escape (c : Char) : Piece :=
  if h : c ≠ '&' ∧ c ≠ '<' then .plain ⟨c, h⟩ else .entity (if c = '&' then ⟨5, by decide⟩ else ⟨0, by decide⟩)

theorem Piece.escape_value (c : Char) : (Piece.escape c).value = c := by
  unfold Piece.escape
  split
  · rfl
  · rename_i h
    by_cases hamp : c = '&'
    · rw [hamp]
      rfl
    · have hlt : c = '<' := by
        by_contra hlt
        exact h ⟨hamp, hlt⟩
      rw [hlt]
      rfl

def escape (original : Text) : Escaped :=
  original.map Piece.escape

theorem escape_value (original : Text) : (escape original).value = original := by
  rw [Escaped.value, escape, List.map_map]
  exact (List.map_congr_left fun c _ => Piece.escape_value c).trans (List.map_id' original)

/-- Decoding is one pass from left to right that never reads its own output, and it gives
back every text, with whatever mixture of the entities it was escaped. -/
theorem decode_entities_single_pass :
    (∀ s, decode_entities s = pass entities s) ∧
      ∀ original, (∃ s : Escaped, s.value = original) ∧
        ∀ s : Escaped, s.value = original → decode_entities s.text = original :=
  ⟨decode_entities_eq_pass, fun original =>
    ⟨⟨escape original, escape_value original⟩, fun s hs => (decode_entities_text s).trans hs⟩⟩

/-- White space is never escaped, and no escape begins or ends with it. -/
theorem Piece.text_cases (p : Piece) :
    (isWhitespace p.value = true ∧ p.text = [p.value]) ∨
      (isWhitespace p.value = false ∧ ∃ c rest, p.text = c :: rest ∧ isWhitespace c = false) := by
  cases p with
  | plain c =>
    cases hc : isWhitespace c.val with
    | true => exact Or.inl ⟨hc, rfl⟩
    | false => exact Or.inr ⟨hc, c.val, [], rfl, hc⟩
  | entity i =>
    have hentities : ∀ i : Fin entities.length,
        isWhitespace (entities.get i).2 = false ∧ (entities.get i).1 = '&' :: (entities.get i).1.tail := by decide
    exact Or.inr ⟨(hentities i).1, '&', _, (hentities i).2, by decide⟩

theorem Piece.text_concat {p : Piece} (h : isWhitespace p.value = false) :
    ∃ front c, p.text = front ++ [c] ∧ isWhitespace c = false := by
  cases p with
  | plain c => exact ⟨[], c.val, rfl, h⟩
  | entity i =>
    have hentities : ∀ i : Fin entities.length, (entities.get i).1 = (entities.get i).1.dropLast ++ [';'] := by decide
    exact ⟨_, ';', hentities i, by decide⟩

theorem trimStart_text (s : Escaped) :
    trimStart s.text = Escaped.text (s.dropWhile fun p => isWhitespace p.value) := by
  induction s with
  | nil => rfl
  | cons p s ih =>
    change (p.text ++ Escaped.text s).dropWhile isWhitespace = _
    obtain ⟨hwhite, htext⟩ | ⟨hplain, c, rest, htext, hc⟩ := p.text_cases
    · have hdrop : (p :: s).dropWhile (fun p => isWhitespace p.value) = s.dropWhile fun p => isWhitespace p.value :=
        List.dropWhile_cons_of_pos hwhite
      rw [hdrop, htext, List.singleton_append, List.dropWhile_cons_of_pos hwhite]
      exact ih
    · have hkeep : (p :: s).dropWhile (fun p => isWhitespace p.value) = p :: s :=
        List.dropWhile_cons_of_neg (by simp [hplain])
      rw [hkeep, htext, List.cons_append, List.dropWhile_cons_of_neg (by simp [hc])]
      change _ = p.text ++ Escaped.text s
      rw [htext, List.cons_append]

theorem trimEnd_text (s : Escaped) :
    trimEnd s.text = Escaped.text (s.rdropWhile fun p => isWhitespace p.value) := by
  have hconcat : ∀ s p, Escaped.text (s ++ [p]) = Escaped.text s ++ p.text := fun s p => by simp [Escaped.text]
  induction s using List.reverseRecOn with
  | nil => rfl
  | append_singleton s p ih =>
    rw [trimEnd, hconcat]
    obtain ⟨hwhite, htext⟩ | ⟨hplain, _⟩ := p.text_cases
    · have hdrop : (s ++ [p]).rdropWhile (fun p => isWhitespace p.value) = s.rdropWhile fun p => isWhitespace p.value :=
        List.rdropWhile_concat_pos _ _ _ hwhite
      rw [hdrop, htext, List.rdropWhile_concat_pos _ _ _ hwhite]
      exact ih
    · have hkeep : (s ++ [p]).rdropWhile (fun p => isWhitespace p.value) = s ++ [p] :=
        List.rdropWhile_concat_neg _ _ _ (by simp [hplain])
      obtain ⟨front, c, htext, hc⟩ := Piece.text_concat hplain
      rw [hkeep, hconcat, htext, ← List.append_assoc, List.rdropWhile_concat_neg _ _ _ (by simp [hc])]

/-- Trimming before unescaping is trimming after it. -/
theorem decode_entities_trim (s : Escaped) : decode_entities (trim s.text) = trim s.value := by
  have hend : ∀ s : Escaped, trimEnd s.value = Escaped.value (s.rdropWhile fun p => isWhitespace p.value) := fun s => by
    simp [trimEnd, Escaped.value, List.rdropWhile, List.dropWhile_map, Function.comp_def, ← List.map_reverse]
  rw [trim, trimStart_text, trimEnd_text, decode_entities_text, ← hend, trim, trimStart, Escaped.value,
    Escaped.value, List.dropWhile_map]
  rfl

/-- A title that looks like an entity. -/
example : decode_entities "&amp;lt; &lt;&amp;&amp;#39;".toList = "&lt; <&&#39;".toList := by decide

end yt_websub.atom
