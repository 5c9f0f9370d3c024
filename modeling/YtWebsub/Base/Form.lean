import YtWebsub.Base.Utf8

open rust.utf8

/-! Texts of the type `application/x-www-form-urlencoded`. -/

namespace form

/-- A hexadecimal digit in either case. -/
def hexForms (n : Nat) : List Char :=
  [Nat.digitChar n, (Nat.digitChar n).toUpper]

/-- The bytes that stand for something else in a pair. -/
def reserved : Bytes := [37, 38, 43, 61]

/-- Everything that may stand for a byte. An ASCII byte may stand for itself wherever
nothing else would be read there. -/
def byteForms (b : UInt8) : List Text :=
  ((hexForms (b.toNat / 16)).flatMap fun hi => (hexForms (b.toNat % 16)).map fun lo => ['%', hi, lo]) ++
    (if b = 32 then [['+']] else []) ++
    (if b < 0x80 ∧ b ∉ reserved then [[Char.ofNat b.toNat]] else [])

/-- A text stands for a string, byte by byte. -/
def RendersText (s text : Text) : Prop :=
  ∃ pieces, List.Forall₂ (fun b piece => piece ∈ byteForms b) (encode s) pieces ∧ text = pieces.flatten

/-- The pairs in their order, with empty segments anywhere. -/
inductive Segments : List (Text × Text) → List Text → Prop where
  | nil : Segments [] []
  | empty {pairs : List (Text × Text)} {segments : List Text} (rest : Segments pairs segments) :
    Segments pairs ([] :: segments)
  | pair {pairs : List (Text × Text)} {segments : List Text} {key value keyText valueText : Text}
    (hkey : RendersText key keyText) (hvalue : RendersText value valueText) (rest : Segments pairs segments) :
    Segments ((key, value) :: pairs) ((keyText ++ '=' :: valueText) :: segments)

def Renders (pairs : List (Text × Text)) (text : Text) : Prop :=
  ∃ segments, Segments pairs segments ∧ text = ['&'].intercalate segments

/-- The value of the first pair with the key. -/
def first (pairs : List (Text × Text)) (key : Text) : Option Text :=
  (pairs.find? fun pair => pair.1 = key).map Prod.snd

theorem first_cons (k v : Text) (pairs : List (Text × Text)) (key : Text) :
    first ((k, v) :: pairs) key = if k = key then some v else first pairs key := by
  by_cases h : k = key
  · simp [first, h]
  · simp [first, h]

theorem mem_byteForms {b : UInt8} {piece : Text} (h : piece ∈ byteForms b) :
    (∃ hi ∈ hexForms (b.toNat / 16), ∃ lo ∈ hexForms (b.toNat % 16), piece = ['%', hi, lo]) ∨
      (b = 32 ∧ piece = ['+']) ∨ (b < 0x80 ∧ b ∉ reserved ∧ piece = [Char.ofNat b.toNat]) := by
  simp only [byteForms, List.mem_append, List.mem_flatMap, List.mem_map] at h
  obtain (⟨hi, hhi, lo, hlo, rfl⟩ | h) | h := h
  · exact Or.inl ⟨hi, hhi, lo, hlo, rfl⟩
  · split at h
    · exact Or.inr (Or.inl ⟨‹b = 32›, List.mem_singleton.mp h⟩)
    · cases h
  · split at h
    · rename_i hliteral
      exact Or.inr (Or.inr ⟨hliteral.1, hliteral.2, List.mem_singleton.mp h⟩)
    · cases h

theorem ofNat_ne {b : UInt8} {c : Char} (hascii : b < 0x80) (h : b ≠ UInt8.ofNat c.toNat) : Char.ofNat b.toNat ≠ c := by
  rintro rfl
  have hvalid : b.toNat.isValidChar := Or.inl (by have hlt := UInt8.lt_iff_toNat_lt.mp hascii; simp at hlt; omega)
  rw [Char.ofNat, dif_pos hvalid] at h
  exact h (UInt8.ofNat_toNat.symm)

theorem not_mem_byteForms {b : UInt8} {piece : Text} (h : piece ∈ byteForms b) : '&' ∉ piece ∧ '=' ∉ piece := by
  have hdigits : ∀ n < 16, (hexForms n).Forall fun c => '&' ≠ c ∧ '=' ≠ c := by decide
  have hb := b.toNat_lt
  obtain ⟨hi, hhi, lo, hlo, rfl⟩ | ⟨_, rfl⟩ | ⟨hascii, hreserved, rfl⟩ := mem_byteForms h
  · have hhi := List.forall_iff_forall_mem.mp (hdigits (b.toNat / 16) (by omega)) hi hhi
    have hlo := List.forall_iff_forall_mem.mp (hdigits (b.toNat % 16) (by omega)) lo hlo
    simp [hhi, hlo]
  · decide
  · simp only [reserved, List.mem_cons, List.not_mem_nil, or_false, not_or] at hreserved
    have hamp := ofNat_ne (c := '&') hascii hreserved.2.1
    have heq := ofNat_ne (c := '=') hascii hreserved.2.2.2
    simp [Ne.symm hamp, Ne.symm heq]

/-- Letters and digits stand for themselves. -/
theorem RendersText.of_alphanum {s : Text} (h : ∀ c ∈ s, c.isAlphanum = true) : RendersText s s := by
  have hspec : ∀ n < 0x80, (Char.ofNat n).isAlphanum = true →
      UInt8.ofNat n < 0x80 ∧ UInt8.ofNat n ∉ reserved ∧ Char.ofNat (UInt8.ofNat n).toNat = Char.ofNat n := by
    decide +kernel
  have hlow : ∀ c ∈ s, c.toNat < 0x80 := fun c hc => by
    have halnum := h c hc
    simp only [Char.isAlphanum, Char.isAlpha, Char.isUpper, Char.isLower, Char.isDigit, Bool.or_eq_true,
      Bool.and_eq_true, decide_eq_true_eq, UInt32.le_iff_toNat_le, ge_iff_le] at halnum
    change c.val.toNat < 0x80
    have hbounds : 'A'.val.toNat = 65 ∧ 'Z'.val.toNat = 90 ∧ 'a'.val.toNat = 97 ∧ 'z'.val.toNat = 122 ∧
        '0'.val.toNat = 48 ∧ '9'.val.toNat = 57 := by decide
    omega
  refine ⟨s.map fun c => [c], ?_, ?_⟩
  · rw [encode_ascii hlow, List.forall₂_map_left_iff, List.forall₂_map_right_iff, List.forall₂_same]
    intro c hc
    obtain ⟨hascii, hfree, hchar⟩ := hspec c.toNat (hlow c hc) (by rw [Char.ofNat_toNat]; exact h c hc)
    refine List.mem_append_right _ ?_
    rw [if_pos ⟨hascii, hfree⟩, hchar, Char.ofNat_toNat]
    exact List.mem_singleton_self _
  · rw [← List.flatMap_def, List.flatMap_singleton']


/-- No text of a string contains a separator. -/
theorem RendersText.not_mem {s text : Text} (h : RendersText s text) : '&' ∉ text ∧ '=' ∉ text := by
  obtain ⟨pieces, hpieces, rfl⟩ := h
  have hall : ∀ piece ∈ pieces, '&' ∉ piece ∧ '=' ∉ piece := by
    generalize encode s = bytes at hpieces
    induction hpieces with
    | nil => exact fun _ h => absurd h List.not_mem_nil
    | cons hpiece _ ih => exact List.forall_mem_cons.mpr ⟨not_mem_byteForms hpiece, ih⟩
  simp only [List.mem_flatten, not_exists, not_and]
  exact ⟨fun piece hmem => (hall piece hmem).1, fun piece hmem => (hall piece hmem).2⟩

theorem Segments.not_mem {pairs : List (Text × Text)} {segments : List Text} (h : Segments pairs segments) :
    ∀ segment ∈ segments, '&' ∉ segment := by
  induction h with
  | nil => exact fun _ h => absurd h List.not_mem_nil
  | empty _ ih => exact List.forall_mem_cons.mpr ⟨List.not_mem_nil, ih⟩
  | pair hkey hvalue _ ih =>
    refine List.forall_mem_cons.mpr ⟨?_, ih⟩
    simp [hkey.not_mem.1, hvalue.not_mem.1]

end form
