import YtWebsub.Base.Utf8

open rust.utf8

namespace rust.num

/-- `u64`. -/
abbrev U64 := Fin (2 ^ 64)

instance u16_neZero : NeZero (2 ^ 16) := ⟨by decide⟩

instance u32_neZero : NeZero (2 ^ 32) := ⟨by decide⟩

instance u64_neZero : NeZero (2 ^ 64) := ⟨by decide⟩

/-- `u64::MAX`. -/
def U64.MAX : U64 := ⟨2 ^ 64 - 1, by decide⟩

/-- `u64::saturating_add`. -/
def saturating_add (a : U64) (b : Nat) : U64 :=
  ⟨min (a.val + b) (2 ^ 64 - 1), by omega⟩

/-- `u64::saturating_sub`. -/
def saturating_sub (a : U64) (b : Nat) : U64 :=
  ⟨a.val - b, by omega⟩

/-- `u64` addition; `none` where it overflows, which panics with overflow checks on. -/
def checked_add (a : U64) (b : Nat) : Option U64 :=
  if h : a.val + b < 2 ^ 64 then some ⟨a.val + b, h⟩ else none

@[simp]
theorem saturating_add_val (a : U64) (b : Nat) : (saturating_add a b).val = min (a.val + b) (2 ^ 64 - 1) := rfl

@[simp]
theorem saturating_sub_val (a : U64) (b : Nat) : (saturating_sub a b).val = a.val - b := rfl

theorem checked_add_eq_some {a : U64} {b : Nat} {c : U64} :
    checked_add a b = some c ↔ c.val = a.val + b := by
  unfold checked_add
  split
  · simp only [Option.some.injEq, Fin.ext_iff]
    exact eq_comm
  · have hc := c.isLt
    simp only [reduceCtorEq, false_iff]
    omega

theorem checked_add_of_lt {a : U64} {b : Nat} (h : a.val + b < 2 ^ 64) :
    checked_add a b = some ⟨a.val + b, h⟩ :=
  dif_pos h

/-- `to_string` of an unsigned integer. -/
def to_string (n : Nat) : Text :=
  Nat.toDigits 10 n

/-- One leading `+` is part of the syntax `str::parse` accepts. -/
def stripPlus : Text → Text
  | '+' :: rest => rest
  | s => s

/-- The value of a non-empty string of ASCII digits. -/
def parseDigits (s : Text) : Option Nat :=
  if s ≠ [] ∧ s.all Char.isDigit then some (Nat.ofDigitChars 10 s 0) else none

/-- `str::parse` at the unsigned integer type of `w` bits. Leading zeros are
accepted; the empty digit string and values out of range are not. -/
def parse (w : Nat) (s : Text) : Option (Fin (2 ^ w)) :=
  match parseDigits (stripPlus s) with
  | some n => if h : n < 2 ^ w then some ⟨n, h⟩ else none
  | none => none

theorem isDigit_of_mem_to_string {n : Nat} {c : Char} (h : c ∈ to_string n) : c.isDigit = true :=
  Nat.isDigit_of_mem_toDigits (by decide) (by decide) h

theorem length_to_string_le {n : Nat} (h : n < 2 ^ 64) : (to_string n).length ≤ 20 :=
  (Nat.length_toDigits_le_iff (by decide) (by decide)).mpr (by omega)

theorem not_mem_to_string {n : Nat} {c : Char} (h : c.isDigit = false) : c ∉ to_string n := by
  intro hmem
  rw [isDigit_of_mem_to_string hmem] at h
  cases h

theorem stripPlus_of_not_mem {s : Text} (h : '+' ∉ s) : stripPlus s = s := by
  unfold stripPlus
  split
  · exact absurd List.mem_cons_self h
  · rfl

theorem parseDigits_to_string (n : Nat) : parseDigits (to_string n) = some n := by
  have hall : (to_string n).all Char.isDigit = true :=
    List.all_eq_true.mpr fun c hc => isDigit_of_mem_to_string hc
  rw [parseDigits, if_pos ⟨Nat.toDigits_ne_nil, hall⟩, to_string, Nat.ofDigitChars_ten_toDigits]

/-- A printed integer parses back to itself. -/
@[simp]
theorem parse_to_string {w : Nat} (n : Fin (2 ^ w)) : parse w (to_string n.val) = some n := by
  rw [parse, stripPlus_of_not_mem (not_mem_to_string (by decide)), parseDigits_to_string]
  exact dif_pos n.isLt

end rust.num
