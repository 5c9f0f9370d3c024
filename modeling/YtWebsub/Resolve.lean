import YtWebsub.Base.HashMap
import YtWebsub.Base.Search
import YtWebsub.Util

open rust rust.utf8 rust.text rust.map
open yt_websub.util

namespace yt_websub.resolve

/-- The bytes of the URL-safe base64 alphabet. -/
def isIdByte (b : UInt8) : Bool :=
  (48 ≤ b && b ≤ 57) || (65 ≤ b && b ≤ 90) || (97 ≤ b && b ≤ 122) || b = 95 || b = 45

def is_channel_id (s : Text) : Bool :=
  (encode s).length = 24 && "UC".toList.isPrefixOf s && (encode s).all isIdByte

def MAX_RESPONSE_BYTES : Nat := 4 * 1024 * 1024

def ALLOWED_HOSTS : List Text :=
  ["www.youtube.com".toList, "youtube.com".toList, "m.youtube.com".toList]

def is_allowed_url (url : Text) : Bool :=
  match strip_start "https://".toList url with
  | none => false
  | some rest =>
    let authority := rest.takeWhile fun c => c ≠ '/' && c ≠ '?' && c ≠ '#'
    if '@' ∈ authority then false
    else
      let host := authority.takeWhile (· ≠ ':')
      ALLOWED_HOSTS.contains ((host.rdropWhile (· = '.')).map toAsciiLower)

/-- The 24 characters from the `UC` that ends a marker, if they are a channel id. -/
def find_after (markers : List String) (text : Text) : Option Text :=
  markers.findSome? fun marker =>
    match find marker.toList text with
    | none => none
    | some pos =>
      let cand := (text.drop (pos + marker.length - 2)).take 24
      if is_channel_id cand then some cand else none

def extract_uc : Text → Option Text :=
  find_after
    ["rel=\"canonical\" href=\"https://www.youtube.com/channel/UC",
      "property=\"og:url\" content=\"https://www.youtube.com/channel/UC",
      "\"externalId\":\"UC",
      "\"channelId\":\"UC",
      "/channel/UC",
      "channel_id=UC"]

def normalize_url (s : Text) : Text :=
  let s := trim s
  if "http://".toList.isPrefixOf s || "https://".toList.isPrefixOf s then s
  else
    match strip_start ['@'] s with
    | some rest => "https://www.youtube.com/@".toList ++ rest
    | none =>
      if "youtube.com".toList.isPrefixOf s || "www.youtube.com".toList.isPrefixOf s then "https://".toList ++ s
      else "https://www.youtube.com/@".toList ++ s

/-- The page as `resolve` reads it, from what the GET of the URL gives. -/
def page (response : Option Bytes) : Option Text :=
  response.map fun bytes => lossy (bytes.take MAX_RESPONSE_BYTES)

set_option linter.dupNamespace false in
/-- `fetch` is the GET request of the moment: the body of the page, or nothing after an error. -/
def resolve (fetch : Text → Option Bytes) (input : Text) (cache : HashMap Text Text) :
    Option Text × HashMap Text Text :=
  let s := trim input
  if s = [] then (none, cache)
  else if is_channel_id s then (some s, cache)
  else
    match extract_uc s, (cache.lookup s).filter is_channel_id with
    | some uc, _ => (some uc, cache)
    | none, some uc => (some uc, cache)
    | none, none =>
      let url := normalize_url s
      if is_allowed_url url then
        match (page (fetch url)).bind extract_uc with
        | some uc => (some uc, cache.insert s uc)
        | none => (none, cache)
      else (none, cache)

theorem find_after_valid {markers : List String} {text id : Text} (h : find_after markers text = some id) :
    is_channel_id id = true := by
  obtain ⟨marker, _, hmarker⟩ := List.exists_of_findSome?_eq_some h
  split at hmarker
  · cases hmarker
  · dsimp only at hmarker
    split at hmarker
    · rename_i hvalid
      rw [Option.some.injEq] at hmarker
      exact hmarker ▸ hvalid
    · cases hmarker

/-- Whatever the cache and the pages hold, only channel ids are returned. -/
theorem resolve_valid {fetch : Text → Option Bytes} {input : Text} {cache : HashMap Text Text} {id : Text}
    (h : (resolve fetch input cache).1 = some id) : is_channel_id id = true := by
  simp only [resolve] at h
  split at h
  · cases h
  split at h
  · rename_i hvalid
    rw [Option.some.injEq] at h
    exact h ▸ hvalid
  split at h
  · rename_i hextract
    rw [Option.some.injEq] at h
    exact h ▸ find_after_valid hextract
  · rename_i uc hcached
    rw [Option.some.injEq] at h
    subst h
    exact (Option.filter_eq_some_iff.mp hcached).2
  · split at h
    · split at h
      · rename_i uc hpage
        rw [Option.some.injEq] at h
        obtain ⟨text, _, htext⟩ := Option.bind_eq_some_iff.mp hpage
        exact h ▸ find_after_valid htext
      · cases h
    · cases h

/-- The characters of an identifier are those of its alphabet. -/
theorem isIdByte_of_mem {s : Text} (h : (encode s).all isIdByte = true) {c : Char} (hc : c ∈ s) :
    c.toNat < 0x80 ∧ isIdByte (UInt8.ofNat c.toNat) = true := by
  have hbytes : ∀ b ∈ String.utf8EncodeChar c, isIdByte b = true := fun b hb =>
    List.all_eq_true.mp h b (List.mem_flatMap.mpr ⟨c, hc, hb⟩)
  by_cases hascii : c.toNat < 0x80
  · refine ⟨hascii, hbytes _ ?_⟩
    rw [encodeChar_ascii hascii]
    exact List.mem_singleton_self _
  · obtain ⟨b, hb⟩ := List.exists_mem_of_ne_nil (String.utf8EncodeChar c)
      (List.ne_nil_of_length_pos (by rw [String.length_utf8EncodeChar]; exact c.utf8Size_pos))
    have hhigh := high_of_mem_encodeChar (by omega) hb
    have hlow : ∀ b : UInt8, isIdByte b = true → b.toNat < 0x80 := by decide +kernel
    have hlt := hlow b (hbytes b hb)
    omega

/-- No character outside the alphabet occurs in an identifier. -/
theorem not_mem_of_all_isIdByte {s : Text} (h : (encode s).all isIdByte = true) {c : Char}
    (hc : isIdByte (UInt8.ofNat c.toNat) = false) : c ∉ s := by
  intro hmem
  have hid := (isIdByte_of_mem h hmem).2
  rw [hc] at hid
  cases hid

theorem pct_encode_id {s : Text} (h : (encode s).all isIdByte = true) : pct_encode s = s := by
  apply pct_encode_of_plain
  intro c hc
  have hplain : ∀ b : UInt8, isIdByte b = true → isStructural b = false := by decide +kernel
  have hb := hplain _ (isIdByte_of_mem h hc).2
  simp only [escapeChar, hb, Bool.false_eq_true, and_false, if_false]

theorem is_channel_id_alphabet {s : Text} (h : is_channel_id s = true) : (encode s).all isIdByte = true :=
  (Bool.and_eq_true_iff.mp h).2

end yt_websub.resolve
