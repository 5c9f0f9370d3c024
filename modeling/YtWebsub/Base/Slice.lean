import YtWebsub.Base.Search

open rust.utf8

namespace rust.text

/-- Why a computation on slices has no result. -/
inductive Stop where
  /-- The ends of a slice are not in order, not in the text or inside of a character. -/
  | slice
  /-- A loop that has not ended yet. -/
  | fuel
deriving DecidableEq

/-- `str::len`. -/
def size (s : Text) : Nat :=
  (encode s).length

/-- `str::is_char_boundary`: some characters of the beginning have `i` bytes. -/
def isBoundary (s : Text) (i : Nat) : Bool :=
  s.inits.any fun front => size front = i

/-- `&s[i..j]`, which panics unless both ends are boundaries. -/
def slice (s : Text) (i j : Nat) : Except Stop Text :=
  if i ≤ j ∧ j ≤ size s ∧ isBoundary s i = true ∧ isBoundary s j = true then
    .ok ((decode (((encode s).take j).drop i)).getD [])
  else .error .slice

/-- `str::find`, with positions counted in bytes. -/
def find_bytes (pattern s : Text) : Option Nat :=
  (find pattern s).map fun pos => size (s.take pos)

@[simp]
theorem size_nil : size [] = 0 := rfl

@[simp]
theorem size_append (s t : Text) : size (s ++ t) = size s + size t := by
  simp [size]

theorem size_pos {s : Text} (h : s ≠ []) : 0 < size s := by
  cases s with
  | nil => exact absurd rfl h
  | cons c s =>
    have hpos := c.utf8Size_pos
    rw [size, encode_cons, List.length_append, String.length_utf8EncodeChar]
    omega

/-- The byte offset of a position. -/
def offset (s : Text) (pos : Nat) : Nat :=
  size (s.take pos)

theorem find_bytes_eq (pattern s : Text) : find_bytes pattern s = (find pattern s).map (offset s) := rfl

theorem offset_of_length_le {s : Text} {pos : Nat} (h : s.length ≤ pos) : offset s pos = size s := by
  rw [offset, List.take_of_length_le h]

theorem offset_add (s : Text) (pos n : Nat) : offset s (pos + n) = offset s pos + offset (s.drop pos) n := by
  rw [offset, List.take_add, size_append]
  rfl

theorem offset_lt {s : Text} {pos : Nat} (h : pos < s.length) : offset s pos < size s := by
  have hpos : 0 < size (s.drop pos) := size_pos (by simpa using h)
  have hsize : size s = offset s pos + size (s.drop pos) := by
    rw [offset, ← size_append, List.take_append_drop]
  omega

theorem size_le_offset_iff {s : Text} {pos : Nat} : size s ≤ offset s pos ↔ s.length ≤ pos := by
  refine ⟨fun h => ?_, fun h => (offset_of_length_le h).ge⟩
  by_contra hlt
  exact absurd (offset_lt (not_le.mp hlt)) (not_lt.mpr h)

/-- The offset behind what stands at a position. -/
theorem offset_add_length {pattern s : Text} {pos : Nat} (h : pattern <+: s.drop pos) :
    offset s (pos + pattern.length) = offset s pos + size pattern := by
  rw [offset_add]
  congr 1
  obtain ⟨rest, hrest⟩ := h
  rw [← hrest, offset, List.take_left]

theorem isBoundary_offset (s : Text) (pos : Nat) : isBoundary s (offset s pos) = true :=
  List.any_eq_true.mpr ⟨s.take pos, (List.mem_inits _ _).mpr (List.take_prefix pos s), decide_eq_true rfl⟩

/-- Slicing between two positions is safe. -/
theorem slice_offset (s : Text) {a b : Nat} (h : a ≤ b) :
    slice s (offset s a) (offset s b) = .ok ((s.drop a).take (b - a)) := by
  obtain ⟨n, rfl⟩ := Nat.exists_eq_add_of_le h
  have hparts : s = s.take a ++ ((s.drop a).take n ++ (s.drop a).drop n) := by
    rw [List.take_append_drop, List.take_append_drop]
  have hsize : size s = offset s (a + n) + size ((s.drop a).drop n) := by
    conv_lhs => rw [hparts]
    rw [size_append, size_append, offset_add, ← Nat.add_assoc]
    rfl
  rw [slice, if_pos ⟨by rw [offset_add]; omega, by omega, isBoundary_offset s a, isBoundary_offset s (a + n)⟩]
  have hbytes : ((encode s).take (offset s (a + n))).drop (offset s a) = encode ((s.drop a).take n) := by
    have hencode : encode s = (encode (s.take a) ++ encode ((s.drop a).take n)) ++ encode ((s.drop a).drop n) := by
      conv_lhs => rw [hparts]
      rw [encode_append, encode_append, List.append_assoc]
    rw [hencode, List.take_left' (by rw [offset_add, List.length_append]; rfl)]
    exact List.drop_left' rfl
  rw [hbytes, decode_encode, Nat.add_sub_cancel_left]
  rfl

theorem slice_offset_end (s : Text) (a : Nat) : slice s (offset s a) (size s) = .ok (s.drop a) := by
  have hend : size s = offset s (max a s.length) := (offset_of_length_le (le_max_right _ _)).symm
  rw [hend, slice_offset s (le_max_left _ _), List.take_of_length_le]
  rw [List.length_drop]
  omega

end rust.text
