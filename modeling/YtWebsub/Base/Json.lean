import YtWebsub.Base.Utf8

open rust.utf8

/-! The grammar of JSON texts, as a relation between values and the texts that say them. -/

namespace json

/-- Insignificant whitespace. -/
def Blank (s : Text) : Prop :=
  ∀ c ∈ s, c ∈ [' ', '\t', '\n', '\r']

def hexDigit (c : Char) : Option Nat :=
  if c.isDigit then some (c.toNat - '0'.toNat)
  else if 'a' ≤ c ∧ c ≤ 'f' then some (c.toNat - 'a'.toNat + 10)
  else if 'A' ≤ c ∧ c ≤ 'F' then some (c.toNat - 'A'.toNat + 10)
  else none

/-- The characters that may follow a backslash, with what they stand for. -/
def escapes : List (Char × Nat) :=
  [('"', 0x22), ('\\', 0x5c), ('/', 0x2f), ('b', 0x08), ('f', 0x0c), ('n', 0x0a), ('r', 0x0d), ('t', 0x09)]

/-- What stands for a character, or for one half of a surrogate pair, in a string literal. -/
inductive Piece where
  | plain (c : Char)
  | escape (c : Char)
  | unicode (a b c d : Char)
deriving DecidableEq

def Piece.Valid : Piece → Prop
  | .plain c => c ≠ '"' ∧ c ≠ '\\' ∧ 0x20 ≤ c.toNat
  | .escape c => c ∈ escapes.map Prod.fst
  | .unicode a b c d => ∀ digit ∈ [a, b, c, d], (hexDigit digit).isSome

instance : ∀ p : Piece, Decidable p.Valid
  | .plain c => inferInstanceAs (Decidable (c ≠ '"' ∧ c ≠ '\\' ∧ 0x20 ≤ c.toNat))
  | .escape c => inferInstanceAs (Decidable (c ∈ escapes.map Prod.fst))
  | .unicode a b c d => List.decidableBAll (fun digit => (hexDigit digit).isSome = true) [a, b, c, d]

def Piece.text : Piece → Text
  | .plain c => [c]
  | .escape c => ['\\', c]
  | .unicode a b c d => ['\\', 'u', a, b, c, d]

/-- The UTF-16 code units of a character. -/
def utf16 (c : Char) : List Nat :=
  if c.toNat < 0x10000 then [c.toNat]
  else [0xd800 + (c.toNat - 0x10000) / 0x400, 0xdc00 + (c.toNat - 0x10000) % 0x400]

def Piece.units : Piece → List Nat
  | .plain c => utf16 c
  | .escape c => (escapes.lookup c).toList
  | .unicode a b c d => [([a, b, c, d].filterMap hexDigit).foldl (fun n digit => 16 * n + digit) 0]

/-- A string literal. -/
def quote (ps : List Piece) : Text :=
  '"' :: ps.flatMap Piece.text ++ ['"']

/-- The literal stands for the string. A literal with half of a surrogate pair in it
stands for none. -/
def Stands (ps : List Piece) (s : Text) : Prop :=
  ps.flatMap Piece.units = s.flatMap utf16

instance (ps : List Piece) (s : Text) : Decidable (Stands ps s) :=
  inferInstanceAs (Decidable (_ = _))

def Digits (s : Text) : Prop :=
  s ≠ [] ∧ ∀ c ∈ s, c.isDigit = true

/-- A number: an optional sign, an integer without leading zeros, an optional fraction and
an optional exponent. -/
def Number (s : Text) : Prop :=
  ∃ sign integer fraction exponent, s = sign ++ integer ++ fraction ++ exponent ∧
    sign ∈ [[], ['-']] ∧
    (integer = ['0'] ∨ Digits integer ∧ integer.head? ≠ some '0') ∧
    (fraction = [] ∨ ∃ digits, fraction = '.' :: digits ∧ Digits digits) ∧
    (exponent = [] ∨ ∃ e sign digits, exponent = e :: sign ++ digits ∧ e ∈ ['e', 'E'] ∧
      sign ∈ [[], ['+'], ['-']] ∧ Digits digits)

/-- A value; strings and numbers are kept as they are spelled. -/
inductive Value where
  | null
  | bool (b : Bool)
  | number (text : Text)
  | string (ps : List Piece)
  | array (items : List Value)
  | object (members : List (List Piece × Value))

mutual

/-- The text is the value, without whitespace around it. -/
inductive Renders : Value → Text → Prop where
  | null : Renders .null "null".toList
  | bool (b : Bool) : Renders (.bool b) (if b then "true".toList else "false".toList)
  | number {text : Text} (valid : Number text) : Renders (.number text) text
  | string {ps : List Piece} (valid : ∀ p ∈ ps, p.Valid) : Renders (.string ps) (quote ps)
  | array {items : List Value} {text : Text} (inner : RendersItems items text) :
    Renders (.array items) ('[' :: text ++ [']'])
  | object {members : List (List Piece × Value)} {text : Text} (inner : RendersMembers members text) :
    Renders (.object members) ('{' :: text ++ ['}'])

/-- The text between the brackets of an array. -/
inductive RendersItems : List Value → Text → Prop where
  | none {blank : Text} (h : Blank blank) : RendersItems [] blank
  | last {v : Value} {before text after : Text} (hbefore : Blank before) (hv : Renders v text) (hafter : Blank after) :
    RendersItems [v] (before ++ text ++ after)
  | cons {v next : Value} {items : List Value} {before text after rest : Text} (hbefore : Blank before)
    (hv : Renders v text) (hafter : Blank after) (hrest : RendersItems (next :: items) rest) :
    RendersItems (v :: next :: items) (before ++ text ++ after ++ ',' :: rest)

/-- The text between the braces of an object. -/
inductive RendersMembers : List (List Piece × Value) → Text → Prop where
  | none {blank : Text} (h : Blank blank) : RendersMembers [] blank
  | last {key : List Piece} {v : Value} {before colon value text after : Text} (hbefore : Blank before)
    (hkey : ∀ p ∈ key, p.Valid) (hcolon : Blank colon) (hvalue : Blank value) (hv : Renders v text)
    (hafter : Blank after) :
    RendersMembers [(key, v)] (before ++ quote key ++ colon ++ ':' :: value ++ text ++ after)
  | cons {key : List Piece} {v : Value} {next : List Piece × Value} {members : List (List Piece × Value)}
    {before colon value text after rest : Text} (hbefore : Blank before) (hkey : ∀ p ∈ key, p.Valid)
    (hcolon : Blank colon) (hvalue : Blank value) (hv : Renders v text) (hafter : Blank after)
    (hrest : RendersMembers (next :: members) rest) :
    RendersMembers ((key, v) :: next :: members)
      (before ++ quote key ++ colon ++ ':' :: value ++ text ++ after ++ ',' :: rest)

end

/-- The whole text is the value, with whitespace around it. -/
def Complete (v : Value) (text : Text) : Prop :=
  ∃ before inner after, Blank before ∧ Renders v inner ∧ Blank after ∧ text = before ++ inner ++ after

/-- A complete object ends with its brace: nothing of it may be missing. -/
theorem Complete.object_ends {members : List (List Piece × Value)} {text : Text}
    (h : Complete (.object members) text) : ∃ start after, text = start ++ '}' :: after ∧ Blank after := by
  obtain ⟨before, inner, after, _, hinner, hafter, rfl⟩ := h
  cases hinner with
  | @object _ text hmembers => exact ⟨before ++ '{' :: text, after, by simp, hafter⟩

theorem hexDigit_range {c : Char} (h : (hexDigit c).isSome) :
    (48 ≤ c.toNat ∧ c.toNat ≤ 57) ∨ (97 ≤ c.toNat ∧ c.toNat ≤ 102) ∨ (65 ≤ c.toNat ∧ c.toNat ≤ 70) := by
  unfold hexDigit at h
  split at h
  · rename_i hdigit
    simp only [Char.isDigit, Bool.and_eq_true, decide_eq_true_eq] at hdigit
    exact Or.inl ⟨UInt32.le_iff_toNat_le.mp hdigit.1, UInt32.le_iff_toNat_le.mp hdigit.2⟩
  split at h
  · rename_i hlower
    exact Or.inr (Or.inl ⟨UInt32.le_iff_toNat_le.mp hlower.1, UInt32.le_iff_toNat_le.mp hlower.2⟩)
  split at h
  · rename_i hupper
    exact Or.inr (Or.inr ⟨UInt32.le_iff_toNat_le.mp hupper.1, UInt32.le_iff_toNat_le.mp hupper.2⟩)
  · cases h

/-- No character lies among the surrogates. -/
theorem not_surrogate (c : Char) : c.toNat < 0xd800 ∨ (0xe000 ≤ c.toNat ∧ c.toNat < 0x110000) := by
  have hvalid := c.valid
  have hval : c.toNat = c.val.toNat := rfl
  simp only [UInt32.isValidChar, Nat.isValidChar] at hvalid
  omega

/-- UTF-16 is a prefix code. -/
theorem utf16_append_inj {c d : Char} {rest rest' : List Nat} (h : utf16 c ++ rest = utf16 d ++ rest') :
    c = d ∧ rest = rest' := by
  have hc := not_surrogate c
  have hd := not_surrogate d
  unfold utf16 at h
  split at h <;> split at h <;> simp only [List.cons_append, List.nil_append, List.cons.injEq] at h
  · exact ⟨Char.toNat_inj.mp h.1, h.2⟩
  · omega
  · omega
  · exact ⟨Char.toNat_inj.mp (by omega), h.2.2⟩

/-- Which pieces of a literal stand for which character of its string. -/
inductive Aligned : List Piece → Text → Prop where
  | nil : Aligned [] []
  | plain {c : Char} {ps : List Piece} {s : Text} (rest : Aligned ps s) : Aligned (.plain c :: ps) (c :: s)
  | escape {e c : Char} {ps : List Piece} {s : Text} (value : escapes.lookup e = some c.toNat) (rest : Aligned ps s) :
    Aligned (.escape e :: ps) (c :: s)
  | unicode {h i j k c : Char} {ps : List Piece} {s : Text} (rest : Aligned ps s) :
    Aligned (.unicode h i j k :: ps) (c :: s)
  | pair {h i j k h' i' j' k' c : Char} {ps : List Piece} {s : Text} (rest : Aligned ps s) :
    Aligned (.unicode h i j k :: .unicode h' i' j' k' :: ps) (c :: s)

theorem lookup_escapes {e : Char} (h : e ∈ escapes.map Prod.fst) : ∃ n, escapes.lookup e = some n ∧ n < 0x80 := by
  simp only [escapes, List.map_cons, List.map_nil, List.mem_cons, List.not_mem_nil, or_false] at h
  rcases h with rfl | rfl | rfl | rfl | rfl | rfl | rfl | rfl
  all_goals exact ⟨_, rfl, by decide⟩

/-- The units of a piece: a character, or one number. -/
theorem units_cases {p : Piece} (h : p.Valid) :
    (∃ c, p = .plain c ∧ p.units = utf16 c) ∨
      (∃ e n, p = .escape e ∧ escapes.lookup e = some n ∧ n < 0x80 ∧ p.units = [n]) ∨
      ∃ a b c d n, p = .unicode a b c d ∧ p.units = [n] := by
  cases p with
  | plain c => exact Or.inl ⟨c, rfl, rfl⟩
  | escape e =>
    obtain ⟨n, hn, hlt⟩ := lookup_escapes h
    exact Or.inr (Or.inl ⟨e, n, rfl, hn, hlt, by rw [Piece.units, hn]; rfl⟩)
  | unicode a b c d => exact Or.inr (Or.inr ⟨a, b, c, d, _, rfl, rfl⟩)

theorem utf16_cases (c : Char) :
    utf16 c = [c.toNat] ∨ ∃ hi lo, utf16 c = [hi, lo] ∧ 0xd800 ≤ hi ∧ hi < 0xdc00 ∧ 0xdc00 ≤ lo ∧ lo < 0xe000 := by
  have hc := not_surrogate c
  unfold utf16
  split
  · exact Or.inl rfl
  · exact Or.inr ⟨_, _, rfl, by omega, by omega, by omega, by omega⟩

theorem Stands.aligned {ps : List Piece} {s : Text} (hvalid : ∀ p ∈ ps, p.Valid) (h : Stands ps s) : Aligned ps s := by
  induction s generalizing ps with
  | nil =>
    cases ps with
    | nil => exact .nil
    | cons p ps =>
      obtain ⟨hp, _⟩ := List.forall_mem_cons.mp hvalid
      rw [Stands, List.flatMap_cons, List.flatMap_nil, List.append_eq_nil_iff] at h
      obtain ⟨c, _, hunits⟩ | ⟨_, _, _, _, _, hunits⟩ | ⟨_, _, _, _, _, _, hunits⟩ := units_cases hp
      · obtain hsmall | ⟨_, _, hlarge, _⟩ := utf16_cases c
        · rw [hunits, hsmall] at h
          cases h.1
        · rw [hunits, hlarge] at h
          cases h.1
      · rw [hunits] at h
        cases h.1
      · rw [hunits] at h
        cases h.1
  | cons x s ih =>
    cases ps with
    | nil =>
      rw [Stands, List.flatMap_nil, List.flatMap_cons] at h
      obtain hsmall | ⟨_, _, hlarge, _⟩ := utf16_cases x
      · rw [hsmall] at h
        cases h
      · rw [hlarge] at h
        cases h
    | cons p ps =>
      obtain ⟨hp, hps⟩ := List.forall_mem_cons.mp hvalid
      rw [Stands, List.flatMap_cons, List.flatMap_cons] at h
      obtain ⟨c, rfl, hunits⟩ | ⟨e, n, rfl, hlookup, hn, hunits⟩ | ⟨a, b, c, d, n, rfl, hunits⟩ := units_cases hp
      · rw [hunits] at h
        obtain ⟨rfl, hrest⟩ := utf16_append_inj h
        exact .plain (ih hps hrest)
      · rw [hunits] at h
        obtain hsmall | ⟨hi, lo, hlarge, hhi, _⟩ := utf16_cases x
        · rw [hsmall, List.cons_append, List.cons_append, List.nil_append, List.nil_append, List.cons.injEq] at h
          exact .escape (h.1 ▸ hlookup) (ih hps h.2)
        · rw [hlarge, List.cons_append, List.cons_append, List.cons.injEq] at h
          omega
      · rw [hunits] at h
        obtain hsmall | ⟨hi, lo, hlarge, hhi, hhi', hlo, hlo'⟩ := utf16_cases x
        · rw [hsmall, List.cons_append, List.cons_append, List.nil_append, List.nil_append, List.cons.injEq] at h
          exact .unicode (ih hps h.2)
        · -- The first half of a surrogate pair: the second half is a piece of its own.
          rw [hlarge, List.cons_append, List.cons_append, List.cons_append, List.nil_append, List.nil_append,
            List.cons.injEq] at h
          obtain ⟨_, hsecond⟩ := h
          cases ps with
          | nil => cases hsecond
          | cons p' ps =>
            obtain ⟨hp', hps'⟩ := List.forall_mem_cons.mp hps
            rw [List.flatMap_cons] at hsecond
            obtain ⟨c', rfl, hunits'⟩ | ⟨_, n', rfl, _, hn', hunits'⟩ | ⟨a', b', c', d', n', rfl, hunits'⟩ :=
              units_cases hp'
            · rw [hunits'] at hsecond
              have hc' := not_surrogate c'
              obtain hsmall' | ⟨_, _, hlarge', _, _, _⟩ := utf16_cases c'
              · rw [hsmall', List.cons_append, List.cons.injEq] at hsecond
                omega
              · rw [hlarge', List.cons_append, List.cons.injEq] at hsecond
                omega
            · rw [hunits', List.cons_append, List.cons.injEq] at hsecond
              omega
            · rw [hunits', List.cons_append, List.nil_append, List.cons.injEq] at hsecond
              exact .pair (ih hps' hsecond.2)

end json
