import YtWebsub.Base.Json

open rust.utf8

/-! A reader for JSON texts, complete for the grammar, and what the values it reads say. -/

namespace json

def isBlank (c : Char) : Bool :=
  c ∈ [' ', '\t', '\n', '\r']

def skipBlank (s : Text) : Text :=
  s.dropWhile isBlank

/-- The pieces of a literal up to its closing quote, and what follows it. -/
def readPieces : Text → Option (List Piece × Text)
  | '"' :: s => some ([], s)
  | '\\' :: 'u' :: a :: b :: c :: d :: s =>
    if (Piece.unicode a b c d).Valid then (readPieces s).map fun (ps, s) => (.unicode a b c d :: ps, s) else none
  | '\\' :: e :: s =>
    if (Piece.escape e).Valid then (readPieces s).map fun (ps, s) => (.escape e :: ps, s) else none
  | c :: s => if (Piece.plain c).Valid then (readPieces s).map fun (ps, s) => (.plain c :: ps, s) else none
  | [] => none

/-- The characters that numbers are made of. -/
def isNumeric (c : Char) : Bool :=
  c.isDigit || c ∈ ['-', '+', '.', 'e', 'E']

def decimal (digits : Text) : Nat :=
  Nat.ofDigitChars 10 digits 0

/-- The power of ten at the end of a number. -/
def exponent : Text → Option Int
  | [] => some 0
  | e :: s =>
    let negative := ['-'].isPrefixOf s
    let digits := if negative || ['+'].isPrefixOf s then s.drop 1 else s
    if e ∈ ['e', 'E'] ∧ digits ≠ [] ∧ digits.all Char.isDigit = true then
      some (if negative then - decimal digits else decimal digits)
    else none

/-- The value of a number without its sign. -/
def unsigned (s : Text) : Option ℚ :=
  let integer := s.takeWhile Char.isDigit
  if integer = ['0'] ∨ (integer ≠ [] ∧ integer.head? ≠ some '0') then
    match s.dropWhile Char.isDigit with
    | '.' :: s =>
      let fraction := s.takeWhile Char.isDigit
      if fraction = [] then none
      else (exponent (s.dropWhile Char.isDigit)).map fun e : Int =>
        (decimal (integer ++ fraction) : ℚ) * 10 ^ (e - (fraction.length : Int))
    | s => (exponent s).map fun e : Int => (decimal integer : ℚ) * 10 ^ e
  else none

def number : Text → Option ℚ
  | '-' :: s => (unsigned s).map fun q => - q
  | s => unsigned s

/-- A value that is neither a string nor an array nor an object. -/
def readAtom (s : Text) : Option (Value × Text) :=
  if "null".toList.isPrefixOf s then some (.null, s.drop 4)
  else if "true".toList.isPrefixOf s then some (.bool true, s.drop 4)
  else if "false".toList.isPrefixOf s then some (.bool false, s.drop 5)
  else
    let text := s.takeWhile isNumeric
    (number text).map fun _ => (.number text, s.drop text.length)

mutual

/-- A value and what follows it. -/
def readValue : Nat → Text → Option (Value × Text)
  | 0, _ => none
  | fuel + 1, s =>
    match s with
    | '"' :: s => (readPieces s).map fun (ps, s) => (.string ps, s)
    | '[' :: s =>
      match skipBlank s with
      | ']' :: s => some (.array [], s)
      | _ => (readItems fuel s).map fun (items, s) => (.array items, s)
    | '{' :: s =>
      match skipBlank s with
      | '}' :: s => some (.object [], s)
      | _ => (readMembers fuel s).map fun (members, s) => (.object members, s)
    | s => readAtom s

/-- The items of an array up to its closing bracket. -/
def readItems : Nat → Text → Option (List Value × Text)
  | 0, _ => none
  | fuel + 1, s => do
    let (v, s) ← readValue fuel (skipBlank s)
    match skipBlank s with
    | ',' :: s => (readItems fuel s).map fun (items, s) => (v :: items, s)
    | ']' :: s => some ([v], s)
    | _ => none

/-- The members of an object up to its closing brace. -/
def readMembers : Nat → Text → Option (List (List Piece × Value) × Text)
  | 0, _ => none
  | fuel + 1, s =>
    match skipBlank s with
    | '"' :: s => do
      let (key, s) ← readPieces s
      match skipBlank s with
      | ':' :: s => do
        let (v, s) ← readValue fuel (skipBlank s)
        match skipBlank s with
        | ',' :: s => (readMembers fuel s).map fun (members, s) => ((key, v) :: members, s)
        | '}' :: s => some ([(key, v)], s)
        | _ => none
      | _ => none
    | _ => none

end

/-- The value of a whole text. Every value is at least one character, so that the length of
the text is fuel enough. -/
def read (text : Text) : Option Value := do
  let (v, rest) ← readValue (text.length + 1) (skipBlank text)
  if skipBlank rest = [] then some v else none

/-- The text that UTF-16 code units encode. -/
def ofUnits : List Nat → Option Text
  | [] => some []
  | hi :: units =>
    if 0xd800 ≤ hi ∧ hi < 0xe000 then
      match units with
      | lo :: units =>
        if hi < 0xdc00 ∧ 0xdc00 ≤ lo ∧ lo < 0xe000 then
          (ofUnits units).map (Char.ofNat (0x10000 + (hi - 0xd800) * 0x400 + (lo - 0xdc00)) :: ·)
        else none
      | [] => none
    else (ofUnits units).map (Char.ofNat hi :: ·)

/-- What a value says: its strings decoded and its numbers evaluated. -/
inductive Data where
  | null
  | bool (b : Bool)
  | number (q : ℚ)
  | string (s : Text)
  | array (items : List Data)
  | object (members : List (Text × Data))

mutual

def Value.data : Value → Option Data
  | .null => some .null
  | .bool b => some (.bool b)
  | .number text => (json.number text).map .number
  | .string ps => (ofUnits (ps.flatMap Piece.units)).map .string
  | .array items => (itemsData items).map .array
  | .object members => (membersData members).map .object

def itemsData : List Value → Option (List Data)
  | [] => some []
  | v :: items => do
    let d ← v.data
    let rest ← itemsData items
    some (d :: rest)

def membersData : List (List Piece × Value) → Option (List (Text × Data))
  | [] => some []
  | (key, v) :: members => do
    let name ← ofUnits (key.flatMap Piece.units)
    let d ← v.data
    let rest ← membersData members
    some ((name, d) :: rest)

end

/-- The data of a JSON text. -/
def parse (text : Text) : Option Data :=
  (read text).bind Value.data

theorem skipBlank_append {blank : Text} (h : Blank blank) (s : Text) : skipBlank (blank ++ s) = skipBlank s :=
  List.dropWhile_append_of_pos fun c hc => decide_eq_true (h c hc)

theorem skipBlank_cons {c : Char} (h : isBlank c = false) (s : Text) : skipBlank (c :: s) = c :: s :=
  List.dropWhile_cons_of_neg (by simp [h])

theorem skipBlank_eq_nil {blank : Text} (h : Blank blank) : skipBlank blank = [] := by
  rw [← List.append_nil blank, skipBlank_append h]
  rfl

/-- A piece is read back. -/
theorem readPieces_text {p : Piece} (h : p.Valid) (s : Text) :
    readPieces (p.text ++ s) = (readPieces s).map fun (ps, s) => (p :: ps, s) := by
  cases p with
  | plain c =>
    change readPieces (c :: s) = _
    rw [readPieces, if_pos h]
    · rintro rfl
      exact h.1 rfl
    · rintro _ _ _ _ _ rfl
      exact absurd rfl h.2.1
    · rintro _ _ rfl
      exact absurd rfl h.2.1
  | escape e =>
    change readPieces ('\\' :: e :: s) = _
    rw [readPieces, if_pos h]
    rintro _ _ _ _ _ rfl
    exact absurd h (by decide)
  | unicode a b c d =>
    change readPieces ('\\' :: 'u' :: a :: b :: c :: d :: s) = _
    rw [readPieces, if_pos h]

theorem readPieces_quote {ps : List Piece} (h : ∀ p ∈ ps, p.Valid) (s : Text) :
    readPieces (ps.flatMap Piece.text ++ '"' :: s) = some (ps, s) := by
  induction ps with
  | nil => rw [List.flatMap_nil, List.nil_append, readPieces]
  | cons p ps ih =>
    obtain ⟨hp, hps⟩ := List.forall_mem_cons.mp h
    rw [List.flatMap_cons, List.append_assoc, readPieces_text hp, ih hps]
    rfl

theorem ofUnits_utf16 (c : Char) (units : List Nat) : ofUnits (utf16 c ++ units) = (ofUnits units).map (c :: ·) := by
  have hc := not_surrogate c
  unfold utf16
  split
  · rw [List.singleton_append, ofUnits.eq_def (c.toNat :: units)]
    dsimp only
    rw [if_neg (by omega), Char.ofNat_toNat]
  · have hchar : 0x10000 + (0xd800 + (c.toNat - 0x10000) / 0x400 - 0xd800) * 0x400 +
        (0xdc00 + (c.toNat - 0x10000) % 0x400 - 0xdc00) = c.toNat := by omega
    rw [List.cons_append, List.singleton_append, ofUnits.eq_def (_ :: _ :: units)]
    dsimp only
    rw [if_pos (by omega), if_pos (by omega), hchar, Char.ofNat_toNat]

/-- UTF-16 is decoded. -/
theorem ofUnits_flatMap (s : Text) : ofUnits (s.flatMap utf16) = some s := by
  induction s with
  | nil => rfl
  | cons c s ih =>
    rw [List.flatMap_cons, ofUnits_utf16, ih]
    rfl

theorem Stands.ofUnits {ps : List Piece} {s : Text} (h : Stands ps s) : ofUnits (ps.flatMap Piece.units) = some s := by
  rw [h, ofUnits_flatMap]

/-- A run of digits ends where something else begins. -/
theorem span_digits {digits rest : Text} (hdigits : ∀ c ∈ digits, c.isDigit = true)
    (hrest : ∀ c ∈ rest.head?, c.isDigit = false) :
    (digits ++ rest).takeWhile Char.isDigit = digits ∧ (digits ++ rest).dropWhile Char.isDigit = rest := by
  cases rest with
  | nil => exact ⟨by rw [List.append_nil, List.takeWhile_eq_self_iff.mpr hdigits],
      by rw [List.append_nil, List.dropWhile_eq_nil_iff.mpr hdigits]⟩
  | cons c rest =>
    have hc := hrest c rfl
    rw [List.takeWhile_append_of_pos hdigits, List.dropWhile_append_of_pos hdigits]
    simp [hc]

theorem exponent_isSome {e : Char} {sign digits : Text} (he : e ∈ ['e', 'E']) (hsign : sign ∈ [[], ['+'], ['-']])
    (hdigits : Digits digits) : (exponent (e :: sign ++ digits)).isSome = true := by
  have hall := List.all_eq_true.mpr hdigits.2
  cases digits with
  | nil => exact absurd rfl hdigits.1
  | cons d digits =>
    have hd := hdigits.2 d List.mem_cons_self
    have hplus : '+' ≠ d := by
      rintro rfl
      cases hd
    have hminus : '-' ≠ d := by
      rintro rfl
      cases hd
    simp only [List.mem_cons, List.not_mem_nil, or_false] at hsign
    rcases hsign with rfl | rfl | rfl <;>
      simp [exponent, he, hall, List.isPrefixOf, hplus, hminus]

/-- Every number of the grammar has a value. -/
theorem number_isSome {s : Text} (h : Number s) : (number s).isSome = true := by
  obtain ⟨sign, integer, fraction, power, rfl, hsign, hinteger, hfraction, hpower⟩ := h
  have hdigits : ∀ c ∈ integer, c.isDigit = true := by
    obtain rfl | hdigits := hinteger
    · simp
    · exact hdigits.1.2
  have hpower' : (exponent power).isSome = true ∧ ∀ c ∈ power.head?, c.isDigit = false ∧ c ≠ '.' := by
    obtain rfl | ⟨e, sign, digits, rfl, he, hsign, hdigits⟩ := hpower
    · exact ⟨rfl, fun c hc => absurd hc (by simp)⟩
    · refine ⟨exponent_isSome he hsign hdigits, fun c hc => ?_⟩
      rw [List.cons_append, List.head?_cons, Option.mem_some_iff] at hc
      subst hc
      simp only [List.mem_cons, List.not_mem_nil, or_false] at he
      rcases he with rfl | rfl <;> decide
  have hunsigned : (unsigned (integer ++ (fraction ++ power))).isSome = true := by
    have hrest : ∀ c ∈ (fraction ++ power).head?, c.isDigit = false := by
      obtain rfl | ⟨digits, rfl, _⟩ := hfraction
      · exact fun c hc => (hpower'.2 c hc).1
      · intro c hc
        rw [List.cons_append, List.head?_cons, Option.mem_some_iff] at hc
        subst hc
        decide
    have hinteger' : integer = ['0'] ∨ (integer ≠ [] ∧ integer.head? ≠ some '0') :=
      hinteger.imp_right fun h => ⟨h.1.1, h.2⟩
    obtain ⟨htake, hdrop⟩ := span_digits hdigits hrest
    simp only [unsigned, htake, hdrop, if_pos hinteger']
    obtain rfl | ⟨digits, rfl, hdigits⟩ := hfraction
    · rw [List.nil_append]
      split
      · exact absurd rfl (hpower'.2 '.' rfl).2
      · rw [Option.isSome_map]
        exact hpower'.1
    · obtain ⟨htake, hdrop⟩ := span_digits hdigits.2 fun c hc => (hpower'.2 c hc).1
      simp only [List.cons_append, htake, hdrop, if_neg hdigits.1, Option.isSome_map]
      exact hpower'.1
  have hhead : integer.head? ≠ some '-' := by
    intro hhead
    exact absurd (hdigits _ (List.mem_of_head? hhead)) (by decide)
  have hne : integer ≠ [] := by
    obtain rfl | hdigits := hinteger
    · simp
    · exact hdigits.1.1
  rw [List.append_assoc, List.append_assoc]
  simp only [List.mem_cons, List.not_mem_nil, or_false] at hsign
  obtain rfl | rfl := hsign
  · cases integer with
    | nil => exact absurd rfl hne
    | cons c integer =>
      rw [List.nil_append, List.cons_append, number]
      · exact hunsigned
      · intro rest hminus
        exact hhead (congrArg some (List.cons.inj hminus).1)
  · rw [List.singleton_append, number, Option.isSome_map]
    exact hunsigned

theorem isNumeric_of_mem {s : Text} (h : Number s) : ∀ c ∈ s, isNumeric c = true := by
  obtain ⟨sign, integer, fraction, power, rfl, hsign, hinteger, hfraction, hpower⟩ := h
  have hdigits : ∀ {digits : Text}, Digits digits → ∀ c ∈ digits, isNumeric c = true := fun h c hc => by
    rw [isNumeric, h.2 c hc, Bool.true_or]
  simp only [List.forall_mem_append]
  refine ⟨⟨⟨?_, ?_⟩, ?_⟩, ?_⟩
  · simp only [List.mem_cons, List.not_mem_nil, or_false] at hsign
    rcases hsign with rfl | rfl <;> simp [isNumeric]
  · obtain rfl | h := hinteger
    · simp [isNumeric]
    · exact hdigits h.1
  · obtain rfl | ⟨digits, rfl, h⟩ := hfraction
    · simp
    · exact List.forall_mem_cons.mpr ⟨by simp [isNumeric], hdigits h⟩
  · obtain rfl | ⟨e, sign, digits, rfl, he, hsign, h⟩ := hpower
    · simp
    · simp only [List.mem_cons, List.not_mem_nil, or_false] at he hsign
      rw [List.cons_append, List.forall_mem_cons, List.forall_mem_append]
      refine ⟨?_, ?_, hdigits h⟩
      · rcases he with rfl | rfl <;> simp [isNumeric]
      · rcases hsign with rfl | rfl | rfl <;> simp [isNumeric]

/-- What may follow a value: a number ends there. -/
def Closed (rest : Text) : Prop :=
  ∀ c ∈ rest.head?, isNumeric c = false

theorem Number.exists_cons {s : Text} (h : Number s) : ∃ c rest, s = c :: rest ∧ isNumeric c = true := by
  have hnumeric := isNumeric_of_mem h
  obtain ⟨sign, integer, fraction, power, rfl, _, hinteger, _⟩ := h
  have hne : integer ≠ [] := by
    obtain rfl | hdigits := hinteger
    · simp
    · exact hdigits.1.1
  obtain ⟨c, rest, hcons⟩ := List.exists_cons_of_ne_nil (by simp [hne] : sign ++ integer ++ fraction ++ power ≠ [])
  exact ⟨c, rest, hcons, hnumeric c (hcons ▸ List.mem_cons_self)⟩

theorem readAtom_number {text rest : Text} (h : Number text) (hclosed : Closed rest) :
    readAtom (text ++ rest) = some (.number text, rest) := by
  obtain ⟨c, tail, htext, hc⟩ := h.exists_cons
  have hword : ∀ first word, isNumeric first = false → (first :: word).isPrefixOf (text ++ rest) = false := by
    intro first word hfirst
    have hne : first ≠ c := by
      rintro rfl
      rw [hc] at hfirst
      cases hfirst
    simp [htext, List.isPrefixOf, hne]
  have htake : (text ++ rest).takeWhile isNumeric = text := by
    rw [List.takeWhile_append_of_pos (isNumeric_of_mem h)]
    cases rest with
    | nil => simp
    | cons d rest => simp [hclosed d rfl]
  obtain ⟨q, hq⟩ := Option.isSome_iff_exists.mp (number_isSome h)
  have hnull := hword 'n' "ull".toList (by decide)
  have htrue := hword 't' "rue".toList (by decide)
  have hfalse := hword 'f' "alse".toList (by decide)
  simp only [String.reduceToList] at hnull htrue hfalse
  simp only [readAtom, String.reduceToList, hnull, htrue, hfalse, Bool.false_eq_true, if_false, htake, hq,
    Option.map_some, List.drop_left]

/-- What a value begins with. -/
theorem Renders.exists_cons {v : Value} {text : Text} (h : Renders v text) :
    ∃ c rest, text = c :: rest ∧ c ∉ [' ', '\t', '\n', '\r', ']', '}'] := by
  cases h with
  | null => exact ⟨'n', "ull".toList, by simp, by simp⟩
  | bool b =>
    cases b with
    | false => exact ⟨'f', "alse".toList, by simp, by simp⟩
    | true => exact ⟨'t', "rue".toList, by simp, by simp⟩
  | number h =>
    obtain ⟨c, rest, hcons, hc⟩ := h.exists_cons
    refine ⟨c, rest, hcons, fun hmem => ?_⟩
    have hother : ∀ c ∈ [' ', '\t', '\n', '\r', ']', '}'], isNumeric c = false := by simp [isNumeric]
    rw [hother c hmem] at hc
    cases hc
  | string _ => exact ⟨'"', _, rfl, by simp⟩
  | array _ => exact ⟨'[', _, rfl, by simp⟩
  | object _ => exact ⟨'{', _, rfl, by simp⟩

theorem Renders.skipBlank {v : Value} {text : Text} (h : Renders v text) {before : Text} (hbefore : Blank before)
    (rest : Text) : skipBlank (before ++ (text ++ rest)) = text ++ rest := by
  obtain ⟨c, tail, rfl, hc⟩ := h.exists_cons
  rw [skipBlank_append hbefore, List.cons_append, skipBlank_cons]
  simp only [List.mem_cons, List.not_mem_nil, or_false, not_or] at hc
  simp [isBlank, hc]

theorem closed_append {blank : Text} (h : Blank blank) {c : Char} (hc : isNumeric c = false) (rest : Text) :
    Closed (blank ++ c :: rest) := by
  have hother : ∀ c ∈ [' ', '\t', '\n', '\r'], isNumeric c = false := by simp [isNumeric]
  intro d hd
  cases blank with
  | nil => exact Option.some.inj hd ▸ hc
  | cons e blank => exact Option.some.inj hd ▸ hother e (h e List.mem_cons_self)

/-- The reader reads the value, whatever may follow it. -/
def ReadsValue (v : Value) (text : Text) : Prop :=
  ∀ fuel rest, text.length < fuel → Closed rest → readValue fuel (text ++ rest) = some (v, rest)

def ReadsItems (items : List Value) (text : Text) : Prop :=
  items ≠ [] → ∀ fuel rest, text.length + 1 < fuel → readItems fuel (text ++ ']' :: rest) = some (items, rest)

def ReadsMembers (members : List (List Piece × Value)) (text : Text) : Prop :=
  members ≠ [] → ∀ fuel rest, text.length + 1 < fuel →
    readMembers fuel (text ++ '}' :: rest) = some (members, rest)

section Rules

variable {v : Value} {before text after : Text} (hbefore : Blank before) (hv : Renders v text)
  (hread : ReadsValue v text) (hafter : Blank after)

include hbefore hv hread hafter

/-- The part that an item and a member have in common. -/
theorem reads_padded {c : Char} (hc : c ∈ [',', ']', '}']) {fuel : Nat} (hfuel : text.length < fuel) (rest : Text) :
    readValue fuel (skipBlank (before ++ (text ++ (after ++ c :: rest)))) = some (v, after ++ c :: rest) ∧
      skipBlank (after ++ c :: rest) = c :: rest := by
  have hend : ∀ c ∈ [',', ']', '}'], isNumeric c = false ∧ isBlank c = false := by simp [isNumeric, isBlank]
  rw [hv.skipBlank hbefore, hread fuel _ hfuel (closed_append hafter (hend c hc).1 rest), skipBlank_append hafter,
    skipBlank_cons (hend c hc).2]
  exact ⟨rfl, rfl⟩

theorem readsItems_last : ReadsItems [v] (before ++ text ++ after) := by
  intro _ fuel rest hfuel
  obtain ⟨fuel, rfl⟩ : ∃ n, fuel = n + 1 := ⟨fuel - 1, by omega⟩
  simp only [List.length_append] at hfuel
  obtain ⟨hvalue, hskip⟩ := reads_padded hbefore hv hread hafter (by simp : ']' ∈ [',', ']', '}'])
    (by omega : text.length < fuel) rest
  rw [List.append_assoc, List.append_assoc, readItems, hvalue, Option.bind_eq_bind, Option.bind_some]
  dsimp only
  rw [hskip]
  rfl

theorem readsItems_cons {next : Value} {items : List Value} {tail : Text} (htail : ReadsItems (next :: items) tail) :
    ReadsItems (v :: next :: items) (before ++ text ++ after ++ ',' :: tail) := by
  intro _ fuel rest hfuel
  obtain ⟨fuel, rfl⟩ : ∃ n, fuel = n + 1 := ⟨fuel - 1, by omega⟩
  obtain ⟨c, text', htext, _⟩ := hv.exists_cons
  have hlength : 0 < text.length := by rw [htext]; simp
  simp only [List.length_append, List.length_cons] at hfuel
  obtain ⟨hvalue, hskip⟩ := reads_padded hbefore hv hread hafter (by simp : ',' ∈ [',', ']', '}'])
    (by omega : text.length < fuel) (tail ++ ']' :: rest)
  rw [List.append_assoc, List.append_assoc, List.append_assoc, List.cons_append, readItems, hvalue,
    Option.bind_eq_bind, Option.bind_some]
  dsimp only
  rw [hskip]
  change (readItems fuel (tail ++ ']' :: rest)).map _ = _
  rw [htail (List.cons_ne_nil _ _) fuel rest (by omega)]
  rfl

/-- The part of a member up to its value, and what follows that. -/
theorem readMembers_eq {lead colon : Text} {key : List Piece} (hlead : Blank lead)
    (hkey : ∀ p ∈ key, p.Valid) (hcolon : Blank colon) {c : Char} (hc : c ∈ [',', ']', '}'])
    {fuel : Nat} (hfuel : text.length < fuel) (rest : Text) :
    readMembers (fuel + 1) (lead ++ (quote key ++ (colon ++ ':' :: (before ++ (text ++ (after ++ c :: rest)))))) =
      match c :: rest with
      | ',' :: s => (readMembers fuel s).map fun (members, s) => ((key, v) :: members, s)
      | '}' :: s => some ([(key, v)], s)
      | _ => none := by
  obtain ⟨hvalue, hskip⟩ := reads_padded hbefore hv hread hafter hc hfuel rest
  have hquote : skipBlank (lead ++ (quote key ++ (colon ++ ':' :: (before ++ (text ++ (after ++ c :: rest)))))) =
      '"' :: (key.flatMap Piece.text ++ '"' :: (colon ++ ':' :: (before ++ (text ++ (after ++ c :: rest))))) := by
    rw [skipBlank_append hlead, quote, List.cons_append, List.cons_append, skipBlank_cons (by decide),
      List.append_assoc, List.singleton_append]
  have hcolon' : skipBlank (colon ++ ':' :: (before ++ (text ++ (after ++ c :: rest)))) =
      ':' :: (before ++ (text ++ (after ++ c :: rest))) := by
    rw [skipBlank_append hcolon, skipBlank_cons (by decide)]
  rw [readMembers, hquote]
  change (readPieces _ >>= _) = _
  rw [readPieces_quote hkey, Option.bind_eq_bind, Option.bind_some]
  dsimp only
  rw [hcolon']
  change (readValue _ _ >>= _) = _
  rw [hvalue, Option.bind_eq_bind, Option.bind_some]
  dsimp only
  rw [hskip]
  rfl

end Rules

theorem readsMembers_last {lead colon before text after : Text} {key : List Piece} {v : Value} (hlead : Blank lead)
    (hkey : ∀ p ∈ key, p.Valid) (hcolon : Blank colon) (hbefore : Blank before) (hv : Renders v text)
    (hread : ReadsValue v text) (hafter : Blank after) :
    ReadsMembers [(key, v)] (lead ++ quote key ++ colon ++ ':' :: before ++ text ++ after) := by
  intro _ fuel rest hfuel
  obtain ⟨fuel, rfl⟩ : ∃ n, fuel = n + 1 := ⟨fuel - 1, by omega⟩
  simp only [List.length_append, List.length_cons] at hfuel
  have h := readMembers_eq hbefore hv hread hafter hlead hkey hcolon (by simp : '}' ∈ [',', ']', '}'])
    (by omega : text.length < fuel) rest
  simp only [List.append_assoc, List.cons_append] at h ⊢
  exact h

theorem readsMembers_cons {lead colon before text after tail : Text} {key : List Piece} {v : Value}
    {next : List Piece × Value} {members : List (List Piece × Value)} (hlead : Blank lead)
    (hkey : ∀ p ∈ key, p.Valid) (hcolon : Blank colon) (hbefore : Blank before) (hv : Renders v text)
    (hread : ReadsValue v text) (hafter : Blank after) (htail : ReadsMembers (next :: members) tail) :
    ReadsMembers ((key, v) :: next :: members)
      (lead ++ quote key ++ colon ++ ':' :: before ++ text ++ after ++ ',' :: tail) := by
  intro _ fuel rest hfuel
  obtain ⟨fuel, rfl⟩ : ∃ n, fuel = n + 1 := ⟨fuel - 1, by omega⟩
  simp only [List.length_append, List.length_cons] at hfuel
  have h := readMembers_eq hbefore hv hread hafter hlead hkey hcolon (by simp : ',' ∈ [',', ']', '}'])
    (by omega : text.length < fuel) (tail ++ '}' :: rest)
  have hrest : readMembers fuel (tail ++ '}' :: rest) = some (next :: members, rest) :=
    htail (List.cons_ne_nil _ _) fuel rest (by omega)
  simp only [List.append_assoc, List.cons_append] at h ⊢
  rw [h]
  change (readMembers fuel (tail ++ '}' :: rest)).map _ = _
  rw [hrest]
  rfl

/-- The first character that is not blank. -/
def Begins (s : Text) (c : Char) (tail : Text) : Prop :=
  c ∉ [' ', '\t', '\n', '\r', ']', '}'] ∧ ∃ before, Blank before ∧ s = before ++ c :: tail

theorem Begins.skipBlank {s tail : Text} {c : Char} (h : Begins s c tail) (rest : Text) :
    skipBlank (s ++ rest) = c :: (tail ++ rest) ∧ c ≠ ']' ∧ c ≠ '}' := by
  obtain ⟨hc, before, hbefore, rfl⟩ := h
  simp only [List.mem_cons, List.not_mem_nil, or_false, not_or] at hc
  refine ⟨?_, hc.2.2.2.2.1, hc.2.2.2.2.2⟩
  rw [List.append_assoc, skipBlank_append hbefore, List.cons_append, skipBlank_cons]
  simp [isBlank, hc]

theorem Begins.of_blank {before : Text} {c : Char} (hbefore : Blank before)
    (hc : c ∉ [' ', '\t', '\n', '\r', ']', '}']) (tail : Text) : Begins (before ++ c :: tail) c tail :=
  ⟨hc, before, hbefore, rfl⟩

theorem Begins.append {s tail : Text} {c : Char} (h : Begins s c tail) (more : Text) :
    Begins (s ++ more) c (tail ++ more) := by
  obtain ⟨hc, before, hbefore, rfl⟩ := h
  exact ⟨hc, before, hbefore, by rw [List.append_assoc, List.cons_append]⟩

theorem RendersItems.cases_first {items : List Value} {text : Text} (h : RendersItems items text) :
    (items = [] ∧ Blank text) ∨ (items ≠ [] ∧ ∃ c tail, Begins text c tail) := by
  cases h with
  | none hblank => exact Or.inl ⟨rfl, hblank⟩
  | last hbefore hv hafter =>
    obtain ⟨c, tail, rfl, hc⟩ := hv.exists_cons
    exact Or.inr ⟨List.cons_ne_nil _ _, c, _, (Begins.of_blank hbefore hc tail).append _⟩
  | cons hbefore hv hafter hrest =>
    obtain ⟨c, tail, rfl, hc⟩ := hv.exists_cons
    exact Or.inr ⟨List.cons_ne_nil _ _, c, _, ((Begins.of_blank hbefore hc tail).append _).append _⟩

theorem RendersMembers.cases_first {members : List (List Piece × Value)} {text : Text}
    (h : RendersMembers members text) :
    (members = [] ∧ Blank text) ∨ (members ≠ [] ∧ ∃ c tail, Begins text c tail) := by
  have hquote : ∀ {before : Text} (key : List Piece), Blank before →
      Begins (before ++ quote key) '"' (key.flatMap Piece.text ++ ['"']) := fun key hbefore =>
    Begins.of_blank hbefore (by simp) _
  cases h with
  | none hblank => exact Or.inl ⟨rfl, hblank⟩
  | last hbefore hkey hcolon hvalue hv hafter =>
    exact Or.inr ⟨List.cons_ne_nil _ _, '"', _, ((((hquote _ hbefore).append _).append _).append _).append _⟩
  | cons hbefore hkey hcolon hvalue hv hafter hrest =>
    exact Or.inr ⟨List.cons_ne_nil _ _, '"', _, (((((hquote _ hbefore).append _).append _).append _).append _).append _⟩

theorem readsValue_array {items : List Value} {text : Text} (h : RendersItems items text)
    (hread : ReadsItems items text) :
    ReadsValue (.array items) ('[' :: text ++ [']']) := by
  intro fuel rest hfuel _
  obtain ⟨fuel, rfl⟩ : ∃ n, fuel = n + 1 := ⟨fuel - 1, by omega⟩
  simp only [List.length_append, List.length_cons, List.length_nil] at hfuel
  rw [List.cons_append, List.cons_append, List.append_assoc, List.singleton_append, readValue]
  obtain ⟨rfl, hblank⟩ | ⟨hne, c, tail, hbegins⟩ := h.cases_first
  · rw [skipBlank_append hblank, skipBlank_cons (by decide)]
    rfl
  · obtain ⟨hskip, hc, _⟩ := hbegins.skipBlank (']' :: rest)
    rw [hskip]
    split
    · rename_i heq
      exact absurd (List.cons.inj heq).1 hc
    · rw [hread hne fuel rest (by omega)]
      rfl

theorem readsValue_object {members : List (List Piece × Value)} {text : Text} (h : RendersMembers members text)
    (hread : ReadsMembers members text) : ReadsValue (.object members) ('{' :: text ++ ['}']) := by
  intro fuel rest hfuel _
  obtain ⟨fuel, rfl⟩ : ∃ n, fuel = n + 1 := ⟨fuel - 1, by omega⟩
  simp only [List.length_append, List.length_cons, List.length_nil] at hfuel
  rw [List.cons_append, List.cons_append, List.append_assoc, List.singleton_append, readValue]
  obtain ⟨rfl, hblank⟩ | ⟨hne, c, tail, hbegins⟩ := h.cases_first
  · rw [skipBlank_append hblank, skipBlank_cons (by decide)]
    rfl
  · obtain ⟨hskip, _, hc⟩ := hbegins.skipBlank ('}' :: rest)
    rw [hskip]
    split
    · rename_i heq
      exact absurd (List.cons.inj heq).1 hc
    · rw [hread hne fuel rest (by omega)]
      rfl

/-- Atoms begin with none of the marks of the other values. -/
theorem readsValue_atom {v : Value} {c : Char} {text : Text} (hc : c ∉ ['"', '[', '{'])
    (h : ∀ rest, Closed rest → readAtom (c :: text ++ rest) = some (v, rest)) : ReadsValue v (c :: text) := by
  intro fuel rest hfuel hclosed
  obtain ⟨fuel, rfl⟩ : ∃ n, fuel = n + 1 := ⟨fuel - 1, by omega⟩
  simp only [List.mem_cons, List.not_mem_nil, or_false, not_or] at hc
  rw [← h rest hclosed, List.cons_append, readValue]
  all_goals
    intro tail heq
    have hfirst := (List.cons.inj heq).1
    simp_all

theorem readsValue_string {ps : List Piece} (h : ∀ p ∈ ps, p.Valid) : ReadsValue (.string ps) (quote ps) := by
  intro fuel rest hfuel _
  obtain ⟨fuel, rfl⟩ : ∃ n, fuel = n + 1 := ⟨fuel - 1, by omega⟩
  rw [quote, List.cons_append, List.cons_append, List.append_assoc, List.singleton_append, readValue,
    readPieces_quote h]
  rfl

/-- The reader reads every text of the grammar. -/
theorem Renders.reads {v : Value} {text : Text} (h : Renders v text) : ReadsValue v text := by
  refine @Renders.rec (fun v text _ => ReadsValue v text) (fun items text _ => ReadsItems items text)
    (fun members text _ => ReadsMembers members text) ?null ?bool ?number ?string ?array ?object ?itemsNone ?itemsLast
    ?itemsCons ?membersNone ?membersLast ?membersCons v text h
  case null =>
    change ReadsValue .null ['n', 'u', 'l', 'l']
    exact readsValue_atom (by simp) fun rest _ => by simp [readAtom]
  case bool =>
    intro b
    cases b with
    | false =>
      change ReadsValue (.bool false) ['f', 'a', 'l', 's', 'e']
      exact readsValue_atom (by simp) fun rest _ => by simp [readAtom]
    | true =>
      change ReadsValue (.bool true) ['t', 'r', 'u', 'e']
      exact readsValue_atom (by simp) fun rest _ => by simp [readAtom]
  case number =>
    intro text hnumber
    obtain ⟨c, tail, rfl, hc⟩ := hnumber.exists_cons
    refine readsValue_atom (fun hmem => ?_) fun rest hclosed => readAtom_number hnumber hclosed
    have hother : ∀ c ∈ ['"', '[', '{'], isNumeric c = false := by simp [isNumeric]
    rw [hother c hmem] at hc
    cases hc
  case string => exact readsValue_string
  case array => exact readsValue_array
  case object => exact readsValue_object
  case itemsNone => exact fun _ h => absurd rfl h
  case itemsLast => exact fun hbefore hv hafter hread => readsItems_last hbefore hv hread hafter
  case itemsCons => exact fun hbefore hv hafter _ hread htail => readsItems_cons hbefore hv hread hafter htail
  case membersNone => exact fun _ h => absurd rfl h
  case membersLast =>
    exact fun hlead hkey hcolon hbefore hv hafter hread => readsMembers_last hlead hkey hcolon hbefore hv hread hafter
  case membersCons =>
    exact fun hlead hkey hcolon hbefore hv hafter _ hread htail =>
      readsMembers_cons hlead hkey hcolon hbefore hv hread hafter htail

theorem Complete.read_eq {v : Value} {text : Text} (h : Complete v text) : read text = some v := by
  obtain ⟨before, inner, after, hbefore, hinner, hafter, rfl⟩ := h
  have hclosed : Closed after := by
    cases after with
    | nil => exact fun c hc => absurd hc (by simp)
    | cons c after =>
      have hother : ∀ c ∈ [' ', '\t', '\n', '\r'], isNumeric c = false := by simp [isNumeric]
      exact fun d hd => Option.some.inj hd ▸ hother c (hafter c List.mem_cons_self)
  have hlength : inner.length < (before ++ inner ++ after).length + 1 := by
    simp only [List.length_append]
    omega
  rw [read, List.append_assoc, hinner.skipBlank hbefore, ← List.append_assoc, hinner.reads _ after hlength hclosed,
    Option.bind_eq_bind, Option.bind_some]
  exact if_pos (skipBlank_eq_nil hafter)

/-- Printed integers have no leading zeros. -/
theorem head?_toDigits {n : Nat} (h : 0 < n) : (Nat.toDigits 10 n).head? ≠ some '0' := by
  induction n using Nat.strongRecOn with
  | ind n ih =>
    obtain hsmall | hlarge := Nat.lt_or_ge n 10
    · have hdigit : ∀ n < 10, 0 < n → n.digitChar ≠ '0' := by decide
      rw [Nat.toDigits_of_lt_base hsmall, List.head?_cons]
      exact fun heq => hdigit n hsmall h (Option.some.inj heq)
    · have hprefix := ih (n / 10) (by omega) (by omega)
      rw [Nat.toDigits_of_base_le (by decide) hlarge, List.head?_append]
      cases hhead : (Nat.toDigits 10 (n / 10)).head? with
      | none => exact absurd (List.head?_eq_none_iff.mp hhead) Nat.toDigits_ne_nil
      | some c => rwa [hhead] at hprefix

theorem digits_toDigits (n : Nat) :
    Digits (Nat.toDigits 10 n) ∧ (Nat.toDigits 10 n = ['0'] ∨ (Nat.toDigits 10 n).head? ≠ some '0') := by
  refine ⟨⟨Nat.toDigits_ne_nil, fun c hc => Nat.isDigit_of_mem_toDigits (by decide) (by decide) hc⟩, ?_⟩
  obtain rfl | hpos := Nat.eq_zero_or_pos n
  · exact Or.inl (Nat.toDigits_zero 10)
  · exact Or.inr (head?_toDigits hpos)

theorem Number.of_toDigits (n : Nat) : Number (Nat.toDigits 10 n) := by
  obtain ⟨hdigits, hfirst⟩ := digits_toDigits n
  exact ⟨[], Nat.toDigits 10 n, [], [], by simp, by simp, hfirst.imp_right fun h => ⟨hdigits, h⟩, Or.inl rfl,
    Or.inl rfl⟩

/-- A printed integer is read as itself. -/
theorem number_toDigits (n : Nat) : number (Nat.toDigits 10 n) = some (n : ℚ) := by
  obtain ⟨hdigits, hfirst⟩ := digits_toDigits n
  obtain ⟨c, rest, hcons⟩ := List.exists_cons_of_ne_nil hdigits.1
  have hminus : c ≠ '-' := by
    rintro rfl
    exact absurd (hdigits.2 '-' (hcons ▸ List.mem_cons_self)) (by decide)
  have hnumber : number (Nat.toDigits 10 n) = unsigned (Nat.toDigits 10 n) := by
    rw [hcons, number]
    exact fun s heq => hminus (List.cons.inj heq).1
  obtain ⟨htake, hdrop⟩ := span_digits hdigits.2 (by simp : ∀ c ∈ ([] : Text).head?, c.isDigit = false)
  rw [List.append_nil] at htake hdrop
  have hvalid : Nat.toDigits 10 n = ['0'] ∨ (Nat.toDigits 10 n ≠ [] ∧ (Nat.toDigits 10 n).head? ≠ some '0') :=
    hfirst.imp_right fun h => ⟨hdigits.1, h⟩
  rw [hnumber]
  simp only [unsigned, htake, hdrop, if_pos hvalid, exponent, Option.map_some, decimal, Nat.ofDigitChars_ten_toDigits,
    zpow_zero, mul_one]

/-- A key without escapes. -/
def plainKey (name : Text) : List Piece :=
  name.map .plain

theorem plainKey_text (name : Text) : (plainKey name).flatMap Piece.text = name := by
  induction name with
  | nil => rfl
  | cons c name ih => exact congrArg (c :: ·) ih

theorem plainKey_stands (name : Text) : Stands (plainKey name) name := by
  induction name with
  | nil => rfl
  | cons c name ih => exact congrArg (utf16 c ++ ·) ih

theorem Blank.nil : Blank [] :=
  fun _ h => absurd h List.not_mem_nil

/-- Values with commas between them are the items of an array. -/
theorem RendersItems.of_forall {items : List Value} {texts : List Text} (h : List.Forall₂ Renders items texts) :
    RendersItems items ([','].intercalate texts) := by
  induction h with
  | nil => exact .none Blank.nil
  | @cons v text items texts hv hrest ih =>
    cases hrest with
    | nil => simpa using RendersItems.last Blank.nil hv Blank.nil
    | cons _ _ =>
      rw [List.intercalate_cons_cons]
      simpa using RendersItems.cons Blank.nil hv Blank.nil ih

/-- A member without blanks around its parts. -/
def member (name value : Text) : Text :=
  '"' :: name ++ '"' :: ':' :: value

/-- Members with commas between them are those of an object. -/
theorem RendersMembers.of_forall {members : List (Text × Value)} {texts : List Text}
    (hkeys : ∀ m ∈ members, ∀ c ∈ m.1, (Piece.plain c).Valid)
    (h : List.Forall₂ (fun m text => ∃ value, text = member m.1 value ∧ Renders m.2 value) members texts) :
    RendersMembers (members.map fun m => (plainKey m.1, m.2)) ([','].intercalate texts) := by
  induction h with
  | nil => exact .none Blank.nil
  | @cons m text members texts hm hrest ih =>
    obtain ⟨value, rfl, hv⟩ := hm
    obtain ⟨hkey, hkeys⟩ := List.forall_mem_cons.mp hkeys
    have hvalid : ∀ p ∈ plainKey m.1, p.Valid := by
      simpa [plainKey] using hkey
    have hquote : quote (plainKey m.1) = '"' :: m.1 ++ ['"'] := by rw [quote, plainKey_text]
    cases hrest with
    | nil =>
      have hlast := RendersMembers.last Blank.nil hvalid Blank.nil Blank.nil hv Blank.nil
      simpa [hquote, member] using hlast
    | cons _ _ =>
      have hcons := RendersMembers.cons Blank.nil hvalid Blank.nil Blank.nil hv Blank.nil (ih hkeys)
      rw [List.intercalate_cons_cons]
      simpa [hquote, member] using hcons

theorem itemsData_map {α : Type} {items : List α} {value : α → Value} {data : α → Data}
    (h : ∀ a ∈ items, (value a).data = some (data a)) : itemsData (items.map value) = some (items.map data) := by
  induction items with
  | nil => simp [itemsData]
  | cons a items ih =>
    obtain ⟨ha, hitems⟩ := List.forall_mem_cons.mp h
    simp [itemsData, ha, ih hitems]

theorem membersData_map {α : Type} {members : List α} {name : α → Text} {value : α → Value} {data : α → Data}
    (h : ∀ a ∈ members, (value a).data = some (data a)) :
    membersData (members.map fun a => (plainKey (name a), value a)) = some (members.map fun a => (name a, data a)) := by
  induction members with
  | nil => simp [membersData]
  | cons a members ih =>
    obtain ⟨ha, hmembers⟩ := List.forall_mem_cons.mp h
    simp [membersData, (plainKey_stands (name a)).ofUnits, ha, ih hmembers]

/-- A text of the grammar is parsed to what its value says. -/
theorem Complete.parse_eq {v : Value} {text : Text} {d : Data} (h : Complete v text) (hd : v.data = some d) :
    parse text = some d := by
  rw [parse, h.read_eq, Option.bind_some, hd]

end json
