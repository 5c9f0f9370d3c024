import YtWebsub.Base.Text

open rust.utf8

namespace rust.text

/-- `str::find`, with positions counted in characters. -/
def find (pattern : Text) : Text → Option Nat
  | [] => if pattern = [] then some 0 else none
  | c :: s => if pattern.isPrefixOf (c :: s) then some 0 else (find pattern s).map (· + 1)

/-- `str::split_once`. -/
def split_once (pattern s : Text) : Option (Text × Text) :=
  (find pattern s).map fun pos => (s.take pos, s.drop (pos + pattern.length))

/-- `str::strip_prefix`. -/
def strip_start (pattern s : Text) : Option Text :=
  if pattern.isPrefixOf s then some (s.drop pattern.length) else none

/-- The rest of the text after `skip` characters of a match have been replaced. -/
def replaceLoop (pattern replacement : Text) : Nat → Text → Text
  | _, [] => []
  | skip + 1, _ :: s => replaceLoop pattern replacement skip s
  | 0, c :: s =>
    if pattern.isPrefixOf (c :: s) then replacement ++ replaceLoop pattern replacement (pattern.length - 1) s
    else c :: replaceLoop pattern replacement 0 s

/-- `str::replace` for a non-empty pattern. -/
def replace (s pattern replacement : Text) : Text :=
  replaceLoop pattern replacement 0 s

/-- `char::to_ascii_lowercase`. -/
def toAsciiLower (c : Char) : Char :=
  if 'A' ≤ c ∧ c ≤ 'Z' then Char.ofNat (c.toNat + 32) else c

/-- `str::eq_ignore_ascii_case`. -/
def eq_ignore_ascii_case (s t : Text) : Bool :=
  s.map toAsciiLower = t.map toAsciiLower

/-- A match lies inside the text. -/
theorem find_add_length_le {pattern s : Text} {pos : Nat} (h : find pattern s = some pos) :
    pos + pattern.length ≤ s.length := by
  induction s generalizing pos with
  | nil =>
    rw [find] at h
    split at h
    · rename_i hpattern
      simp only [Option.some.injEq] at h
      simp [hpattern, ← h]
    · cases h
  | cons c s ih =>
    rw [find] at h
    split at h
    · rename_i hmatch
      simp only [Option.some.injEq] at h
      have hle := (List.isPrefixOf_iff_prefix.mp hmatch).length_le
      omega
    · obtain ⟨pos', hpos', rfl⟩ := Option.map_eq_some_iff.mp h
      have hle := ih hpos'
      rw [List.length_cons]
      omega

theorem find_append_self (pattern rest : Text) : find pattern (pattern ++ rest) = some 0 := by
  cases hs : pattern ++ rest with
  | nil => rw [find, if_pos (List.append_eq_nil_iff.mp hs).1]
  | cons c s => rw [find, if_pos (List.isPrefixOf_iff_prefix.mpr (hs ▸ List.prefix_append pattern rest))]

theorem find_cons_of_not_prefix {pattern : Text} {c : Char} {s : Text} (h : ¬ pattern <+: c :: s) :
    find pattern (c :: s) = (find pattern s).map (· + 1) := by
  rw [find, if_neg (mt List.isPrefixOf_iff_prefix.mp h)]

/-- The pattern stands where it is found. -/
theorem eq_of_find {pattern s : Text} {pos : Nat} (h : find pattern s = some pos) :
    s = s.take pos ++ (pattern ++ s.drop (pos + pattern.length)) := by
  induction s generalizing pos with
  | nil =>
    have hle := find_add_length_le h
    rw [List.length_nil, Nat.le_zero, Nat.add_eq_zero_iff, List.length_eq_zero_iff] at hle
    obtain ⟨rfl, rfl⟩ := hle
    rfl
  | cons c s ih =>
    rw [find] at h
    split at h
    · rename_i hmatch
      obtain ⟨rest, hrest⟩ := List.isPrefixOf_iff_prefix.mp hmatch
      rw [Option.some.injEq] at h
      rw [← h, ← hrest, Nat.zero_add, List.take_zero, List.nil_append, List.drop_left]
    · obtain ⟨pos', hpos', rfl⟩ := Option.map_eq_some_iff.mp h
      have hshift : pos' + 1 + pattern.length = pos' + pattern.length + 1 := by omega
      rw [hshift, List.take_succ_cons, List.drop_succ_cons, List.cons_append, ← ih hpos']

/-- A pattern that stands somewhere is found, there or earlier. -/
theorem exists_find_le {pattern front rest : Text} :
    ∃ pos ≤ front.length, find pattern (front ++ (pattern ++ rest)) = some pos := by
  induction front with
  | nil => exact ⟨0, le_rfl, find_append_self pattern rest⟩
  | cons c front ih =>
    obtain ⟨pos, hle, hpos⟩ := ih
    rw [List.cons_append, find]
    split
    · exact ⟨0, Nat.zero_le _, rfl⟩
    · exact ⟨pos + 1, Nat.succ_le_succ hle, by rw [hpos]; rfl⟩

theorem prefix_of_find {pattern s : Text} {pos : Nat} (h : find pattern s = some pos) : pattern <+: s.drop pos := by
  have hle := find_add_length_le h
  have hsplit := eq_of_find h
  rw [hsplit]
  refine ⟨s.drop (pos + pattern.length), ?_⟩
  exact (List.drop_left' (by rw [List.length_take]; omega)).symm

/-- What is found is the first place where the pattern stands. -/
theorem find_eq_some_iff {pattern s : Text} {pos : Nat} :
    find pattern s = some pos ↔ pattern <+: s.drop pos ∧ ∀ earlier < pos, ¬ pattern <+: s.drop earlier := by
  have hle : ∀ {place : Nat}, pattern <+: s.drop place → ∃ first ≤ place, find pattern s = some first := by
    rintro place ⟨rest, hrest⟩
    have hsplit : s = s.take place ++ (pattern ++ rest) := by rw [hrest, List.take_append_drop]
    obtain ⟨first, hfirst, hfind⟩ := @exists_find_le pattern (s.take place) rest
    rw [← hsplit] at hfind
    exact ⟨first, hfirst.trans (List.length_take_le _ _), hfind⟩
  constructor
  · intro hfind
    refine ⟨prefix_of_find hfind, fun earlier hlt hearlier => ?_⟩
    obtain ⟨first, hfirst, hfind'⟩ := hle hearlier
    rw [hfind, Option.some.injEq] at hfind'
    omega
  · rintro ⟨hhere, hnone⟩
    obtain ⟨first, hfirst, hfind⟩ := hle hhere
    obtain hlt | rfl := Nat.lt_or_eq_of_le hfirst
    · exact absurd (prefix_of_find hfind) (hnone first hlt)
    · exact hfind

theorem split_once_append_self (pattern rest : Text) : split_once pattern (pattern ++ rest) = some ([], rest) := by
  rw [split_once, find_append_self, Option.map_some, Nat.zero_add, List.take_zero, List.drop_left]

theorem split_once_cons_of_not_prefix {pattern : Text} {c : Char} {s : Text} (h : ¬ pattern <+: c :: s) :
    split_once pattern (c :: s) = (split_once pattern s).map fun (front, rest) => (c :: front, rest) := by
  rw [split_once, find_cons_of_not_prefix h, split_once, Option.map_map, Option.map_map]
  congr 1
  funext pos
  have hshift : pos + 1 + pattern.length = pos + pattern.length + 1 := by omega
  simp only [Function.comp_apply, hshift, List.take_succ_cons, List.drop_succ_cons]

/-- The parts of a split, and where it was made. -/
theorem split_once_eq_some {pattern s front rest : Text} (h : split_once pattern s = some (front, rest)) :
    s = front ++ (pattern ++ rest) ∧ find pattern s = some front.length := by
  obtain ⟨pos, hpos, hparts⟩ := Option.map_eq_some_iff.mp h
  obtain ⟨rfl, rfl⟩ := Prod.mk.inj hparts
  have hle := find_add_length_le hpos
  exact ⟨eq_of_find hpos, by rw [hpos, List.length_take, Nat.min_eq_left (by omega)]⟩

/-- The first match of a character is the first place it stands at. -/
theorem find_singleton {c : Char} {front : Text} (h : c ∉ front) (rest : Text) :
    find [c] (front ++ c :: rest) = some front.length := by
  induction front with
  | nil => simp [find, List.isPrefixOf]
  | cons x front ih =>
    obtain ⟨hx, hfront⟩ := not_or.mp (List.mem_cons.not.mp h)
    rw [List.cons_append, find, if_neg (by simpa [List.isPrefixOf] using hx), ih hfront]
    rfl

/-- The character does not stand before its first match. -/
theorem not_mem_take_find (c : Char) (s : Text) : c ∉ s.take ((find [c] s).getD s.length) := by
  induction s with
  | nil => exact List.not_mem_nil
  | cons x s ih =>
    rw [find]
    split
    · exact List.not_mem_nil
    · rename_i hx
      have hne : c ≠ x := by simpa [List.isPrefixOf] using hx
      cases hfind : find [c] s with
      | none =>
        rw [hfind] at ih
        exact List.mem_cons.not.mpr (not_or.mpr ⟨hne, ih⟩)
      | some pos =>
        rw [hfind] at ih
        exact List.mem_cons.not.mpr (not_or.mpr ⟨hne, ih⟩)

end rust.text
