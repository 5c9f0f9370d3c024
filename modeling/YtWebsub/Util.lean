import YtWebsub.Base.FileSystem
import YtWebsub.Base.Num
import YtWebsub.Base.Search

open rust rust.utf8 rust.text rust.num rust.fs

namespace yt_websub.util

/-- `Path::with_extension`: what follows the last dot of the file name is replaced. -/
def with_extension (path : Path) (extension : Text) : Path :=
  let directory := path.rdropWhile (· ≠ '/')
  let name := path.rtakeWhile (· ≠ '/')
  let stem := name.rdropWhile (· ≠ '.')
  -- A name without a dot, or whose only dot comes first, has no extension to replace.
  if stem.length ≤ 1 then directory ++ name ++ '.' :: extension
  else directory ++ stem ++ extension

/-- The step of `write_atomic` that fails. -/
inductive AtomicFault where
  | create
  /-- `write_all` stops with an error after this many bytes. -/
  | write (written : Nat)
  | sync
  | rename
deriving DecidableEq

/-- Write a temporary file, sync its data, then rename it over the target. The flag
says whether the call returned `Ok`. -/
def write_atomic (fs : FileSystem) (path : Path) (bytes : Bytes) (fault : Option AtomicFault) :
    FileSystem × Bool :=
  let tmp := with_extension path "tmp".toList
  if fault = some .create then (fs, false)
  else
    let (fs, file) := fs.create tmp
    match fault with
    | some (.write written) => (fs.append file (bytes.take written), false)
    | some .sync => (fs.append file bytes, false)
    | some .rename => ((fs.append file bytes).sync file, false)
    | _ =>
      match ((fs.append file bytes).sync file).rename tmp path with
      | some fs => (fs, true)
      | none => ((fs.append file bytes).sync file, false)

/-- `u8` value of an ASCII hexadecimal digit. -/
def hex_val (c : UInt8) : Option UInt8 :=
  if 48 ≤ c && c ≤ 57 then some (c - 48)
  else if 97 ≤ c && c ≤ 102 then some (c - 97 + 10)
  else if 65 ≤ c && c ≤ 70 then some (c - 65 + 10)
  else none

/-- The loop of `hex_decode`, two digits at a time. -/
def hexPairs : Bytes → Option Bytes
  | [] => some []
  | hi :: lo :: rest => do
    let hi ← hex_val hi
    let lo ← hex_val lo
    let bytes ← hexPairs rest
    some (((hi <<< 4) ||| lo) :: bytes)
  | [_] => none

def hex_decode (s : Text) : Option Bytes :=
  let b := encode (trim s)
  if b.length % 2 ≠ 0 then none else hexPairs b

/-- `b"0123456789ABCDEF"[n]`. -/
def hexUpper (n : UInt8) : UInt8 :=
  if n < 10 then 48 + n else 55 + n

/-- The bytes `pct_encode` escapes: controls, `%` and DEL. -/
def isStructural (b : UInt8) : Bool :=
  b < 0x20 || b = 37 || b = 0x7f

def pctEncodeByte (b : UInt8) : Bytes :=
  if isStructural b then [37, hexUpper (b >>> 4), hexUpper (b &&& 0x0f)] else [b]

/-- Percent-encode only structural and control bytes. -/
def pct_encode (s : Text) : Text :=
  (decode ((encode s).flatMap pctEncodeByte)).getD []

/-- The loop of `pct_decode`: two lookahead bytes must exist for an escape to be read. -/
def pctDecodeBytes : Bytes → Bytes
  | b :: h :: l :: rest =>
    if b = 37 then
      match hex_val h, hex_val l with
      | some hi, some lo => ((hi <<< 4) ||| lo) :: pctDecodeBytes rest
      | _, _ => b :: pctDecodeBytes (h :: l :: rest)
    else b :: pctDecodeBytes (h :: l :: rest)
  | b :: rest => b :: pctDecodeBytes rest
  | [] => []

def pct_decode (s : Text) : Text :=
  lossy (pctDecodeBytes (encode s))

/-- `b"0123456789abcdef"[n]`. -/
def hexLower (n : UInt8) : Char :=
  if n < 10 then Char.ofNat (48 + n.toNat) else Char.ofNat (87 + n.toNat)

def hex_encode (bytes : Bytes) : Text :=
  bytes.flatMap fun b : UInt8 => [hexLower (b >>> 4), hexLower (b &&& 0x0f)]

/-- `buf` is what the OS generator fills the buffer with. -/
def rand_hex (buf : Bytes) : Text :=
  hex_encode buf

/-- `drawn` is the number read from the OS generator. -/
def rand_below (drawn : U64) (n : Nat) : Nat :=
  if n = 0 then 0 else drawn.val % n

/-- The loop of `url_decode`. -/
def urlDecodeBytes : Bytes → Bytes
  | b :: h :: l :: rest =>
    if b = 37 then
      match hex_val h, hex_val l with
      | some hi, some lo => ((hi <<< 4) ||| lo) :: urlDecodeBytes rest
      | _, _ => b :: urlDecodeBytes (h :: l :: rest)
    else (if b = 43 then 32 else b) :: urlDecodeBytes (h :: l :: rest)
  | b :: rest => (if b = 43 then 32 else b) :: urlDecodeBytes rest
  | [] => []

def url_decode (s : Text) : Text :=
  lossy (urlDecodeBytes (encode s))

/-- The loop of `query_get` over the pairs of the query string. -/
def find_pair (key : Text) : List Text → Option Text
  | [] => none
  | pair :: pairs =>
    if pair = [] then find_pair key pairs
    else
      let (k, v) := (split_once ['='] pair).getD (pair, [])
      if url_decode k = key then some (url_decode v) else find_pair key pairs

def query_get (query key : Text) : Option Text :=
  find_pair key (query.splitOn '&')

/-- The bytes are compared without a branch on them. -/
def ct_eq (a b : Bytes) : Bool :=
  if a.length ≠ b.length then false
  else (a.zip b).foldl (fun (diff : UInt8) (x, y) => diff ||| (x ^^^ y)) 0 = 0

/-- `{:04x}`. -/
def hexPadded (n : Nat) : Text :=
  (Nat.toDigits 16 n).leftpad 4 '0'

/-- The loop body of `json_string`. -/
def json_char (c : Char) : Text :=
  if c = '"' then ['\\', '"']
  else if c = '\\' then ['\\', '\\']
  else if c = '\n' then ['\\', 'n']
  else if c = '\r' then ['\\', 'r']
  else if c = '\t' then ['\\', 't']
  else if c.toNat < 0x20 then '\\' :: 'u' :: hexPadded c.toNat
  else [c]

def json_string (s : Text) : Text :=
  '"' :: s.flatMap json_char ++ ['"']

theorem hex_val_hexUpper_high (b : UInt8) : hex_val (hexUpper (b >>> 4)) = some (b >>> 4) := by
  revert b
  decide +kernel

theorem hex_val_hexUpper_low (b : UInt8) : hex_val (hexUpper (b &&& 0x0f)) = some (b &&& 0x0f) := by
  revert b
  decide +kernel

theorem nibbles (b : UInt8) : ((b >>> 4) <<< 4) ||| (b &&& 0x0f) = b := by
  revert b
  decide +kernel

/-- Every byte of an escape is printable ASCII. -/
theorem hexUpper_printable (b : UInt8) :
    (0x30 ≤ (hexUpper (b >>> 4)).toNat ∧ (hexUpper (b >>> 4)).toNat < 0x7f) ∧
      0x30 ≤ (hexUpper (b &&& 0x0f)).toNat ∧ (hexUpper (b &&& 0x0f)).toNat < 0x7f := by
  revert b
  decide +kernel

theorem pctDecodeBytes_cons {b : UInt8} (h : b ≠ 37) (rest : Bytes) :
    pctDecodeBytes (b :: rest) = b :: pctDecodeBytes rest := by
  match rest with
  | [] => rfl
  | [_] => rfl
  | _ :: _ :: _ => rw [pctDecodeBytes, if_neg h]

theorem pctDecodeBytes_escape (b : UInt8) (rest : Bytes) :
    pctDecodeBytes (37 :: hexUpper (b >>> 4) :: hexUpper (b &&& 0x0f) :: rest) = b :: pctDecodeBytes rest := by
  rw [pctDecodeBytes, if_pos rfl, hex_val_hexUpper_high, hex_val_hexUpper_low]
  simp only [nibbles]

/-- Decoding undoes the escapes byte for byte. -/
theorem pctDecodeBytes_encode (bs : Bytes) : pctDecodeBytes (bs.flatMap pctEncodeByte) = bs := by
  induction bs with
  | nil => rfl
  | cons b bs ih =>
    rw [List.flatMap_cons, pctEncodeByte]
    by_cases hb : isStructural b = true
    · rw [if_pos hb, List.cons_append, List.cons_append, List.cons_append, List.nil_append,
        pctDecodeBytes_escape, ih]
    · have hpercent : b ≠ 37 := by
        rintro rfl
        exact hb rfl
      rw [if_neg hb, List.singleton_append, pctDecodeBytes_cons hpercent, ih]

/-- The escape of one character: `%XX` for a structural one, itself otherwise. -/
def escapeChar (c : Char) : Text :=
  let b := UInt8.ofNat c.toNat
  if c.toNat < 0x80 ∧ isStructural b then
    ['%', Char.ofNat (hexUpper (b >>> 4)).toNat, Char.ofNat (hexUpper (b &&& 0x0f)).toNat]
  else [c]

theorem toNat_ofNat_ascii {n : Nat} (h : n < 0x80) : (Char.ofNat n).toNat = n := by
  have hvalid : n.isValidChar := Or.inl (by omega)
  rw [Char.ofNat, dif_pos hvalid]
  rfl

theorem encodeChar_ofNat {n : Nat} (h : n < 0x80) : String.utf8EncodeChar (Char.ofNat n) = [UInt8.ofNat n] := by
  rw [encodeChar_ascii (by rw [toNat_ofNat_ascii h]; exact h), toNat_ofNat_ascii h]

/-- The byte loop of `pct_encode` escapes character by character: no byte of a
multi-byte sequence collides with an escaped one. -/
theorem pctEncode_encodeChar (c : Char) :
    (String.utf8EncodeChar c).flatMap pctEncodeByte = encode (escapeChar c) := by
  by_cases hascii : c.toNat < 0x80
  · rw [encodeChar_ascii hascii, List.flatMap_singleton, pctEncodeByte, escapeChar]
    by_cases hb : isStructural (UInt8.ofNat c.toNat) = true
    · obtain ⟨⟨_, hhigh⟩, _, hlow⟩ := hexUpper_printable (UInt8.ofNat c.toNat)
      rw [if_pos hb, if_pos ⟨hascii, hb⟩, encode_cons, encode_cons, encode_cons, encode_nil,
        encodeChar_ascii (c := '%') (by decide),
        encodeChar_ofNat (n := (hexUpper (UInt8.ofNat c.toNat >>> 4)).toNat) (by omega),
        encodeChar_ofNat (n := (hexUpper (UInt8.ofNat c.toNat &&& 0x0f)).toNat) (by omega),
        UInt8.ofNat_toNat, UInt8.ofNat_toNat]
      rfl
    · rw [if_neg hb, if_neg (fun h => hb h.2), encode_cons, encode_nil, encodeChar_ascii hascii,
        List.append_nil]
  · rw [escapeChar, if_neg (fun h => hascii h.1), encode_cons, encode_nil, List.append_nil]
    have hraw : ∀ b ∈ String.utf8EncodeChar c, pctEncodeByte b = [b] := by
      intro b hb
      have hhigh := high_of_mem_encodeChar (by omega) hb
      rw [pctEncodeByte, if_neg]
      simp only [isStructural, Bool.or_eq_true, decide_eq_true_eq, UInt8.lt_iff_toNat_lt, not_or,
        ← UInt8.toNat_inj]
      simp only [UInt8.reduceToNat]
      omega
    rw [List.flatMap_congr hraw, List.flatMap_singleton']

theorem pctEncode_encode (s : Text) : (encode s).flatMap pctEncodeByte = encode (s.flatMap escapeChar) := by
  induction s with
  | nil => rfl
  | cons c s ih =>
    rw [encode_cons, List.flatMap_append, pctEncode_encodeChar, ih, List.flatMap_cons, encode_append]

theorem pct_encode_eq (s : Text) : pct_encode s = s.flatMap escapeChar := by
  rw [pct_encode, pctEncode_encode, decode_encode, Option.getD_some]

/-- Text without structural characters is stored as it is. -/
theorem pct_encode_of_plain {s : Text} (h : ∀ c ∈ s, escapeChar c = [c]) : pct_encode s = s := by
  rw [pct_encode_eq, List.flatMap_congr h, List.flatMap_singleton']

/-- Text without `%` is read back as it stands. -/
theorem pct_decode_of_not_mem {s : Text} (h : '%' ∉ s) : pct_decode s = s := by
  have hbytes : ∀ bs : Bytes, 37 ∉ bs → pctDecodeBytes bs = bs := by
    intro bs
    induction bs with
    | nil => exact fun _ => rfl
    | cons b bs ih =>
      intro hnot
      obtain ⟨hb, hbs⟩ := not_or.mp (List.mem_cons.not.mp hnot)
      rw [pctDecodeBytes_cons (Ne.symm hb), ih hbs]
  rw [pct_decode, hbytes _ (not_mem_encode (show '%'.toNat < 0x80 by decide) h), lossy_encode]

theorem length_le_pct_encode (s : Text) : s.length ≤ (pct_encode s).length := by
  rw [pct_encode_eq]
  induction s with
  | nil => exact Nat.zero_le _
  | cons c s ih =>
    have hone : 1 ≤ (escapeChar c).length := by
      simp only [escapeChar]
      split <;> simp
    rw [List.flatMap_cons, List.length_append, List.length_cons]
    omega

/-- The codec is lossless. -/
@[simp]
theorem pct_decode_pct_encode (s : Text) : pct_decode (pct_encode s) = s := by
  rw [pct_decode, pct_encode_eq, ← pctEncode_encode, pctDecodeBytes_encode, lossy_encode]

/-- An encoded field contains no control character, so it cannot break the framing
of a tab-separated row. -/
theorem printable_of_mem_pct_encode {s : Text} {c : Char} (h : c ∈ pct_encode s) :
    0x20 ≤ c.toNat ∧ c.toNat ≠ 0x7f := by
  rw [pct_encode_eq] at h
  obtain ⟨d, _, hc⟩ := List.mem_flatMap.mp h
  rw [escapeChar] at hc
  split at hc
  · obtain ⟨⟨hlo, hhi⟩, hlo', hhi'⟩ := hexUpper_printable (UInt8.ofNat d.toNat)
    have hchar : ∀ n, 0x30 ≤ n → n < 0x7f → 0x20 ≤ (Char.ofNat n).toNat ∧ (Char.ofNat n).toNat ≠ 0x7f := by
      intro n hn hn'
      rw [toNat_ofNat_ascii (by omega)]
      omega
    simp only [List.mem_cons, List.not_mem_nil, or_false] at hc
    rcases hc with rfl | rfl | rfl
    · decide
    · exact hchar _ hlo hhi
    · exact hchar _ hlo' hhi'
  · rename_i hraw
    rw [List.mem_singleton] at hc
    subst hc
    by_contra hnot
    have hlt : c.toNat < 0x80 := by omega
    have hstruct : isStructural (UInt8.ofNat c.toNat) = true := by
      simp only [isStructural, Bool.or_eq_true, decide_eq_true_eq, UInt8.lt_iff_toNat_lt, ← UInt8.toNat_inj]
      simp only [UInt8.toNat_ofNat', UInt8.reduceToNat]
      omega
    exact hraw ⟨hlt, hstruct⟩

/-- Exactly the control characters, `%` and DEL are escaped. -/
theorem escapeChar_eq (c : Char) :
    escapeChar c = if c.toNat < 0x20 ∨ c = '%' ∨ c.toNat = 0x7f then
      ['%', (Nat.digitChar (c.toNat / 16)).toUpper, (Nat.digitChar (c.toNat % 16)).toUpper] else [c] := by
  by_cases hascii : c.toNat < 0x80
  · have hall : ∀ n < 0x80, escapeChar (Char.ofNat n) =
        if n < 0x20 ∨ n = 0x25 ∨ n = 0x7f then
          ['%', (Nat.digitChar (n / 16)).toUpper, (Nat.digitChar (n % 16)).toUpper] else [Char.ofNat n] := by
      decide +kernel
    have hpercent : c = '%' ↔ c.toNat = 0x25 := ⟨fun h => h ▸ rfl, fun h => Char.toNat_inj.mp h⟩
    have hc := hall c.toNat hascii
    rw [Char.ofNat_toNat] at hc
    rw [hc]
    simp only [hpercent]
  · have hpercent : c ≠ '%' := by
      rintro rfl
      exact hascii (by decide)
    rw [escapeChar, if_neg (fun h => hascii h.1), if_neg]
    rintro (h | h | h)
    · omega
    · exact hpercent h
    · omega

theorem printable_of_mem_encode {s : Text} (h : ∀ c ∈ s, 0x20 ≤ c.toNat ∧ c.toNat ≠ 0x7f) :
    ∀ b ∈ encode s, 0x20 ≤ b ∧ b ≠ 0x7f := by
  intro b hb
  obtain ⟨c, hc, hbyte⟩ := List.mem_flatMap.mp hb
  obtain ⟨hlow, hdel⟩ := h c hc
  by_cases hascii : c.toNat < 0x80
  · rw [encodeChar_ascii hascii, List.mem_singleton] at hbyte
    rw [hbyte, UInt8.le_iff_toNat_le, Ne, ← UInt8.toNat_inj, UInt8.toNat_ofNat']
    simp only [UInt8.reduceToNat]
    omega
  · have hhigh := high_of_mem_encodeChar (by omega) hbyte
    rw [UInt8.le_iff_toNat_le, Ne, ← UInt8.toNat_inj]
    simp only [UInt8.reduceToNat]
    omega

/-- The codec keeps every string and the framing of a row, and rows without escapes are
read as they stand. -/
theorem percent_codec :
    (∀ s, decode ((encode s).flatMap pctEncodeByte) = some (pct_encode s) ∧
      pct_encode s = s.flatMap (fun c =>
        if c.toNat < 0x20 ∨ c = '%' ∨ c.toNat = 0x7f then
          ['%', (Nat.digitChar (c.toNat / 16)).toUpper, (Nat.digitChar (c.toNat % 16)).toUpper]
        else [c]) ∧
      (∀ b ∈ encode (pct_encode s), 0x20 ≤ b ∧ b ≠ 0x7f) ∧
      pct_decode (pct_encode s) = s) ∧
    ∀ s, '%' ∉ s → pct_decode s = s := by
  refine ⟨fun s => ⟨?_, ?_, ?_, pct_decode_pct_encode s⟩, fun s h => pct_decode_of_not_mem h⟩
  · rw [pctEncode_encode, decode_encode, pct_encode_eq]
  · rw [pct_encode_eq]
    exact List.flatMap_congr fun c _ => escapeChar_eq c
  · exact printable_of_mem_encode fun c hc => printable_of_mem_pct_encode hc

/-- Nothing cancels a difference once it is there. -/
theorem foldl_diff_eq_zero {pairs : List (UInt8 × UInt8)} {diff : UInt8} :
    pairs.foldl (fun (diff : UInt8) (x, y) => diff ||| (x ^^^ y)) diff = 0 ↔
      diff = 0 ∧ ∀ pair ∈ pairs, pair.1 = pair.2 := by
  induction pairs generalizing diff with
  | nil => simp
  | cons pair pairs ih =>
    rw [List.foldl_cons, ih, UInt8.or_eq_zero_iff, UInt8.xor_eq_zero_iff, List.forall_mem_cons, and_assoc]

/-- The comparison is equality. -/
theorem ct_eq_iff {a b : Bytes} : ct_eq a b = true ↔ a = b := by
  unfold ct_eq
  split
  · rename_i hlength
    exact iff_of_false Bool.false_ne_true fun h => hlength (congrArg _ h)
  · rename_i hlength
    rw [decide_eq_true_eq, foldl_diff_eq_zero, ← List.forall₂_eq_eq_eq, List.forall₂_iff_zip]
    exact ⟨fun h => ⟨not_not.mp hlength, fun hmem => h.2 _ hmem⟩, fun h => ⟨rfl, fun _ hmem => h.2 hmem⟩⟩

/-- What `rand_hex` returns is hexadecimal. -/
theorem isHex_of_mem_rand_hex {buf : Bytes} {c : Char} (h : c ∈ rand_hex buf) : c.isAlphanum = true := by
  have hdigit : ∀ b : UInt8, (hexLower (b >>> 4)).isAlphanum = true ∧ (hexLower (b &&& 0x0f)).isAlphanum = true := by
    decide +kernel
  obtain ⟨b, _, hb⟩ := List.mem_flatMap.mp h
  simp only [List.mem_cons, List.not_mem_nil, or_false] at hb
  obtain rfl | rfl := hb
  · exact (hdigit b).1
  · exact (hdigit b).2

theorem rand_below_lt {drawn : U64} {n : Nat} (h : 0 < n) : rand_below drawn n < n := by
  rw [rand_below, if_neg (Nat.pos_iff_ne_zero.mp h)]
  exact Nat.mod_lt _ h

end yt_websub.util
