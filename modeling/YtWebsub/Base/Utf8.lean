import Mathlib

namespace rust.utf8

/-- The contents of a file or of a request body. -/
abbrev Bytes := List UInt8

/-- A `str`, as its sequence of Unicode scalar values. -/
abbrev Text := List Char

instance text_lawfulBEq : LawfulBEq Text := inferInstance

/-- `str::as_bytes`. -/
def encode (s : Text) : Bytes :=
  s.flatMap String.utf8EncodeChar

/-- The first scalar value of a byte slice, when the slice starts with a valid one. -/
def decodeChar (bs : Bytes) : Option Char :=
  (bs.take 4).toByteArray.utf8DecodeChar? 0

/-- The validation loop of `String::from_utf8`; every pass consumes at least one byte. -/
def decodeLoop : Nat → Bytes → Option Text
  | _, [] => some []
  | 0, _ :: _ => none
  | fuel + 1, b :: bs =>
    match decodeChar (b :: bs) with
    | none => none
    | some c => (decodeLoop fuel ((b :: bs).drop c.utf8Size)).map (c :: ·)

/-- `String::from_utf8`: `none` on any ill-formed byte sequence. -/
def decode (bs : Bytes) : Option Text :=
  decodeLoop bs.length bs

/-- A continuation byte. -/
def isCont (b : UInt8) : Bool :=
  0x80 ≤ b && b ≤ 0xBF

/-- Whether a second byte may follow a lead byte of a three- or four-byte sequence. -/
def secondOk (b c : UInt8) : Bool :=
  if b = 0xE0 then 0xA0 ≤ c && c ≤ 0xBF
  else if b = 0xED then 0x80 ≤ c && c ≤ 0x9F
  else if b = 0xF0 then 0x90 ≤ c && c ≤ 0xBF
  else if b = 0xF4 then 0x80 ≤ c && c ≤ 0x8F
  else isCont c

/-- How many bytes `String::from_utf8_lossy` replaces by one U+FFFD when the slice
does not start with a valid scalar value: the maximal valid beginning, or one byte. -/
def invalidLength : Bytes → Nat
  | b :: c :: d :: _ =>
    if 0xE0 ≤ b && b ≤ 0xF4 && secondOk b c then
      if 0xF0 ≤ b && isCont d then 3 else 2
    else 1
  | b :: c :: _ => if 0xE0 ≤ b && b ≤ 0xF4 && secondOk b c then 2 else 1
  | _ => 1

/-- The loop of `String::from_utf8_lossy`. -/
def lossyLoop : Nat → Bytes → Text
  | _, [] => []
  | 0, _ :: _ => []
  | fuel + 1, b :: bs =>
    match decodeChar (b :: bs) with
    | some c => c :: lossyLoop fuel ((b :: bs).drop c.utf8Size)
    | none => '\uFFFD' :: lossyLoop fuel ((b :: bs).drop (invalidLength (b :: bs)))

/-- `String::from_utf8_lossy`. -/
def lossy (bs : Bytes) : Text :=
  lossyLoop bs.length bs

@[simp]
theorem encode_nil : encode [] = [] := rfl

@[simp]
theorem encode_cons (c : Char) (s : Text) : encode (c :: s) = String.utf8EncodeChar c ++ encode s := rfl

@[simp]
theorem encode_append (s t : Text) : encode (s ++ t) = encode s ++ encode t := by
  simp [encode]

/-- An encoded scalar value is read back from the front of any slice. -/
@[simp]
theorem decodeChar_encodeChar_append (c : Char) (bs : Bytes) :
    decodeChar (String.utf8EncodeChar c ++ bs) = some c := by
  have hsize := c.utf8Size_le_four
  have htake : (String.utf8EncodeChar c ++ bs).take 4 =
      String.utf8EncodeChar c ++ bs.take (4 - c.utf8Size) := by
    rw [List.take_append, String.length_utf8EncodeChar, List.take_of_length_le (by simpa using hsize)]
  rw [decodeChar, htake, List.toByteArray_append, ByteArray.utf8DecodeChar?_utf8EncodeChar_append]

/-- A decoded scalar value is what the slice starts with. -/
theorem decodeChar_eq_some {bs : Bytes} {c : Char} (h : decodeChar bs = some c) :
    bs = String.utf8EncodeChar c ++ bs.drop c.utf8Size := by
  obtain ⟨rest, hrest⟩ := ByteArray.exists_of_utf8DecodeChar?_eq_some h
  have htake : bs.take 4 = String.utf8EncodeChar c ++ rest.data.toList := by
    have hdata := congrArg (fun b => b.data.toList) hrest
    simpa using hdata
  have hbs : bs = String.utf8EncodeChar c ++ (rest.data.toList ++ bs.drop 4) := by
    rw [← List.append_assoc, ← htake, List.take_append_drop]
  have hdrop : bs.drop c.utf8Size = rest.data.toList ++ bs.drop 4 := by
    conv_lhs => rw [hbs]
    rw [List.drop_append_of_le_length (by simp), List.drop_of_length_le (by simp), List.nil_append]
  rw [hdrop]
  exact hbs

theorem decodeLoop_encode (s : Text) (fuel : Nat) (hfuel : (encode s).length ≤ fuel) :
    decodeLoop fuel (encode s) = some s := by
  induction s generalizing fuel with
  | nil => cases fuel <;> rfl
  | cons c s ih =>
    have hpos := c.utf8Size_pos
    simp only [encode_cons, List.length_append, String.length_utf8EncodeChar] at hfuel
    obtain ⟨fuel, rfl⟩ : ∃ k, fuel = k + 1 := ⟨fuel - 1, by omega⟩
    cases hbytes : encode (c :: s) with
    | nil => simp at hbytes
    | cons b bs =>
      rw [decodeLoop, ← hbytes, encode_cons, decodeChar_encodeChar_append]
      simp only
      rw [List.drop_append_of_le_length (by simp), List.drop_of_length_le (by simp), List.nil_append,
        ih fuel (by omega)]
      rfl

/-- UTF-8 decoding inverts encoding. -/
@[simp]
theorem decode_encode (s : Text) : decode (encode s) = some s :=
  decodeLoop_encode s _ le_rfl

theorem encode_of_decodeLoop {fuel : Nat} {bs : Bytes} {s : Text}
    (h : decodeLoop fuel bs = some s) : encode s = bs := by
  induction fuel generalizing bs s with
  | zero =>
    cases bs with
    | nil =>
      simp only [decodeLoop, Option.some.injEq] at h
      rw [← h, encode_nil]
    | cons b bs => simp [decodeLoop] at h
  | succ fuel ih =>
    cases bs with
    | nil =>
      simp only [decodeLoop, Option.some.injEq] at h
      rw [← h, encode_nil]
    | cons b bs =>
      rw [decodeLoop] at h
      cases hchar : decodeChar (b :: bs) with
      | none => simp [hchar] at h
      | some c =>
        simp only [hchar, Option.map_eq_some_iff] at h
        obtain ⟨rest, hrest, rfl⟩ := h
        rw [encode_cons, ih hrest]
        exact (decodeChar_eq_some hchar).symm

/-- Only the encoding of a text decodes to it. -/
theorem encode_of_decode {bs : Bytes} {s : Text} (h : decode bs = some s) : encode s = bs :=
  encode_of_decodeLoop h

/-- UTF-8 is a prefix code: a byte prefix that is itself a text is a prefix of the text. -/
theorem prefix_of_encode_prefix {s t : Text} (h : encode s <+: encode t) : s <+: t := by
  induction s generalizing t with
  | nil => exact List.nil_prefix
  | cons c s ih =>
    obtain ⟨rest, hrest⟩ := h
    cases t with
    | nil => simp at hrest
    | cons d t =>
      have hsame : decodeChar (encode (c :: s) ++ rest) = decodeChar (encode (d :: t)) := by rw [hrest]
      rw [encode_cons, encode_cons, List.append_assoc, decodeChar_encodeChar_append,
        decodeChar_encodeChar_append, Option.some.injEq] at hsame
      subst hsame
      rw [encode_cons, encode_cons, List.append_assoc, List.append_cancel_left_eq] at hrest
      exact List.cons_prefix_cons.mpr ⟨rfl, ih ⟨rest, hrest⟩⟩

theorem lossyLoop_encode (s : Text) (fuel : Nat) (hfuel : (encode s).length ≤ fuel) :
    lossyLoop fuel (encode s) = s := by
  induction s generalizing fuel with
  | nil => cases fuel <;> rfl
  | cons c s ih =>
    have hpos := c.utf8Size_pos
    simp only [encode_cons, List.length_append, String.length_utf8EncodeChar] at hfuel
    obtain ⟨fuel, rfl⟩ : ∃ k, fuel = k + 1 := ⟨fuel - 1, by omega⟩
    cases hbytes : encode (c :: s) with
    | nil => simp at hbytes
    | cons b bs =>
      rw [lossyLoop, ← hbytes, encode_cons, decodeChar_encodeChar_append]
      simp only
      rw [List.drop_append_of_le_length (by simp), List.drop_of_length_le (by simp), List.nil_append,
        ih fuel (by omega)]

/-- Lossy decoding changes no valid text. -/
@[simp]
theorem lossy_encode (s : Text) : lossy (encode s) = s :=
  lossyLoop_encode s _ le_rfl

theorem length_le_encode (s : Text) : s.length ≤ (encode s).length := by
  induction s with
  | nil => exact le_rfl
  | cons c s ih =>
    have hpos := c.utf8Size_pos
    rw [encode_cons, List.length_append, String.length_utf8EncodeChar, List.length_cons]
    omega

/-- An ASCII scalar value is encoded as itself. -/
theorem encodeChar_ascii {c : Char} (h : c.toNat < 0x80) :
    String.utf8EncodeChar c = [UInt8.ofNat c.toNat] := by
  have hle : c.val.toNat ≤ 127 := by
    change c.toNat ≤ 127
    omega
  simp only [String.utf8EncodeChar, hle, if_true]
  rfl

theorem encode_ascii {s : Text} (h : ∀ c ∈ s, c.toNat < 0x80) : encode s = s.map fun c => UInt8.ofNat c.toNat := by
  induction s with
  | nil => rfl
  | cons c s ih =>
    obtain ⟨hc, hs⟩ := List.forall_mem_cons.mp h
    rw [encode_cons, encodeChar_ascii hc, ih hs]
    rfl

/-- Every byte of a non-ASCII scalar value lies outside the ASCII range. -/
theorem high_of_mem_encodeChar {c : Char} (h : 0x80 ≤ c.toNat) {b : UInt8}
    (hb : b ∈ String.utf8EncodeChar c) : 0x80 ≤ b.toNat := by
  have hlo : ¬ c.val.toNat ≤ 127 := by
    change ¬ c.toNat ≤ 127
    omega
  simp only [String.utf8EncodeChar, hlo, if_false] at hb
  split_ifs at hb <;> simp only [List.mem_cons, List.not_mem_nil, or_false] at hb
  · rcases hb with rfl | rfl <;> simp only [UInt8.toNat_ofNat'] <;> omega
  · rcases hb with rfl | rfl | rfl <;> simp only [UInt8.toNat_ofNat'] <;> omega
  · rcases hb with rfl | rfl | rfl | rfl <;> simp only [UInt8.toNat_ofNat'] <;> omega

end rust.utf8
