import YtWebsub.Base.Form
import YtWebsub.Callback

open rust rust.utf8 rust.text
open yt_websub.util yt_websub.subs
open form

namespace yt_websub.callback

theorem urlDecodeBytes_cons {b : UInt8} (h : b ≠ 37) (rest : Bytes) :
    urlDecodeBytes (b :: rest) = (if b = 43 then 32 else b) :: urlDecodeBytes rest := by
  match rest with
  | [] => rfl
  | [_] => rfl
  | _ :: _ :: _ => rw [urlDecodeBytes, if_neg h]

/-- Whatever stands for a byte is decoded to it, also at the end of the input. -/
theorem urlDecodeBytes_piece {b : UInt8} {piece : Text} (h : piece ∈ byteForms b) (rest : Bytes) :
    urlDecodeBytes (encode piece ++ rest) = b :: urlDecodeBytes rest := by
  obtain ⟨hi, hhi, lo, hlo, rfl⟩ | ⟨rfl, rfl⟩ | ⟨hascii, hreserved, rfl⟩ := mem_byteForms h
  · have hdigits : ∀ b : UInt8,
        ((hexForms (b.toNat / 16)).Forall fun hi =>
          hi.toNat < 0x80 ∧ hex_val (UInt8.ofNat hi.toNat) = some (b >>> 4)) ∧
        (hexForms (b.toNat % 16)).Forall fun lo =>
          lo.toNat < 0x80 ∧ hex_val (UInt8.ofNat lo.toNat) = some (b &&& 0x0f) := by
      decide +kernel
    have hhi := List.forall_iff_forall_mem.mp (hdigits b).1 hi hhi
    have hlo := List.forall_iff_forall_mem.mp (hdigits b).2 lo hlo
    rw [encode_cons, encode_cons, encode_cons, encode_nil, encodeChar_ascii (c := '%') (by decide),
      encodeChar_ascii hhi.1, encodeChar_ascii hlo.1]
    simp only [List.cons_append, List.nil_append]
    rw [urlDecodeBytes, if_pos (by decide), hhi.2, hlo.2]
    simp only [nibbles]
  · exact urlDecodeBytes_cons (by decide) rest
  · have hlt : b.toNat < 0x80 := UInt8.lt_iff_toNat_lt.mp hascii
    simp only [reserved, List.mem_cons, List.not_mem_nil, or_false, not_or] at hreserved
    rw [encode_cons, encode_nil, encodeChar_ofNat hlt, UInt8.ofNat_toNat, List.append_nil, List.singleton_append,
      urlDecodeBytes_cons hreserved.1, if_neg hreserved.2.2.1]

/-- Decoding a rendered string gives it back. -/
theorem url_decode_rendered {s text : Text} (h : RendersText s text) : url_decode text = s := by
  obtain ⟨pieces, hpieces, rfl⟩ := h
  have hbytes : ∀ {bytes : Bytes} {pieces : List Text},
      List.Forall₂ (fun b piece => piece ∈ byteForms b) bytes pieces →
        urlDecodeBytes (encode pieces.flatten) = bytes := by
    intro bytes pieces hpieces
    induction hpieces with
    | nil => rfl
    | cons hpiece _ ih => rw [List.flatten_cons, encode_append, urlDecodeBytes_piece hpiece, ih]
  rw [url_decode, hbytes hpieces, lossy_encode]

theorem find_pair_rendered {pairs : List (Text × Text)} {segments : List Text} (h : Segments pairs segments)
    (key : Text) :
    find_pair key segments = first pairs key := by
  induction h with
  | nil => rfl
  | empty _ ih => rw [find_pair, if_pos rfl, ih]
  | @pair pairs segments name value keyText valueText hkey hvalue _ ih =>
    have hne : keyText ++ '=' :: valueText ≠ [] := by simp
    have hsplit : split_once ['='] (keyText ++ '=' :: valueText) = some (keyText, valueText) := by
      rw [split_once, find_singleton hkey.not_mem.2]
      simp
    rw [find_pair, if_neg hne, hsplit, Option.getD_some, first, List.find?_cons]
    simp only [url_decode_rendered hkey, url_decode_rendered hvalue]
    by_cases hname : name = key
    · simp [hname]
    · rw [if_neg hname, ih, first]
      simp [hname]

theorem query_get_rendered {pairs : List (Text × Text)} {query : Text} (h : Renders pairs query) (key : Text) :
    query_get query key = first pairs key := by
  obtain ⟨segments, hsegments, rfl⟩ := h
  rw [query_get, ← find_pair_rendered hsegments]
  cases segments with
  | nil => simp [find_pair]
  | cons segment segments => rw [List.splitOn_intercalate '&' hsegments.not_mem (List.cons_ne_nil _ _)]

/-- However the pairs are rendered, every key finds its first value, and the handlers
compare and echo the topic and the challenge that were sent. -/
theorem query_decoding {pairs : List (Text × Text)} {query : Text} (h : Renders pairs query) :
    (∀ key, query_get query key = first pairs key) ∧
      ∀ (sub : Sub) (challenge : Text), first pairs "hub.topic".toList = some sub.topic →
        first pairs "hub.challenge".toList = some challenge → challenge ≠ [] →
        ((first pairs "hub.mode".toList = some "subscribe".toList →
            (first pairs "hub.verify_token".toList).getD [] ∈ [[], sub.token] →
            handle_verify sub query = (some sub.channel_id, some challenge)) ∧
          (first pairs "hub.mode".toList = some "unsubscribe".toList →
            finish_unsubscribe (some sub.topic) query = some challenge)) := by
  refine ⟨query_get_rendered h, fun sub challenge htopic hchallenge hne => ?_⟩
  rw [← query_get_rendered h] at htopic hchallenge
  refine ⟨fun hmode htoken => ?_, fun hmode => ?_⟩
  · rw [← query_get_rendered h] at hmode htoken
    have htoken' : (query_get query "hub.verify_token".toList).getD [] = [] ∨
        (query_get query "hub.verify_token".toList).getD [] = sub.token := List.mem_pair.mp htoken
    have hmatches : verify_matches sub query = true := by
      rw [verify_matches, htopic, hchallenge]
      simp only [Option.getD_some, decide_true, Bool.true_and, decide_eq_true hne, Bool.or_eq_true, decide_eq_true_eq]
      exact htoken'
    rw [handle_verify, hmatches, hmode, hchallenge]
    rfl
  · rw [← query_get_rendered h] at hmode
    rw [finish_unsubscribe, hmode, htopic, hchallenge]
    exact if_pos ⟨rfl, rfl, hne⟩

theorem query_decoding_sample : query_get "&a+b=%c3%A9&".toList "a b".toList = some "é".toList := by
  have hrendered : Renders [("a b".toList, "é".toList)] "&a+b=%c3%A9&".toList := by
    refine ⟨[[], "a+b".toList ++ '=' :: "%c3%A9".toList, []], .empty (.pair ?_ ?_ (.empty .nil)), by decide⟩
    · exact ⟨["a".toList, "+".toList, "b".toList], by decide, by decide⟩
    · exact ⟨["%c3".toList, "%A9".toList], by decide, by decide⟩
  exact (query_decoding hrendered).1 "a b".toList

end yt_websub.callback
