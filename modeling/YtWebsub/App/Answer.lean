import YtWebsub.App.Delivery
import YtWebsub.TinyHttp.Response

open rust rust.utf8 rust.text rust.num rust.fs
open tiny_http (Header find_header)
open tiny_http.response hiding Response
open yt_websub.app

namespace yt_websub.http

/-- The response that a handler passes to `respond`. -/
def sent (response : Response) : tiny_http.response.Response :=
  match response.content_type with
  | none => .empty response.status
  | some content_type =>
    let text := (tiny_http.response.Response.from_string response.body).with_status_code response.status
    if content_type = "text/plain; charset=UTF-8".toList then text
    else text.add_header ⟨"Content-Type".toList, content_type⟩

/-- The responses of the relay: those that a handler gives at once, and those that a later
step of its thread sends. -/
inductive Given (hmac : Bytes → Bytes → Bytes) : Response → Prop where
  | handled {cfg : config.Config} {env : Env} {app app' : App} {req : Request} {response : Response}
      (h : handle hmac cfg env app req = some (app', some response)) : Given hmac response
  | confirmed (challenge : Option Text) : Given hmac (callback.confirmation challenge)
  | submitted (outcome : api.Submitted) : Given hmac (api.channels_response outcome)

/-- The responses of the relay are JSON, text or empty. -/
structure Plain (response : Response) : Prop where
  status : response.status < 2 ^ 16
  content : response.content_type = some "application/json".toList ∨
    response.content_type = some "text/plain; charset=UTF-8".toList ∨
      response.content_type = none ∧ response.body = []

theorem plain_json {code : Nat} (hcode : code < 2 ^ 16) (body : Text) : Plain (api.json_response code body) where
  status := hcode
  content := .inl rfl

theorem plain_empty {status : Nat} (hstatus : status < 2 ^ 16) : Plain (.empty status) where
  status := hstatus
  content := .inr (.inr ⟨rfl, rfl⟩)

variable {hmac : Bytes → Bytes → Bytes} {cfg : config.Config} {env : Env} {app app' : App} {req : Request}
  {response : Response}

theorem api_plain {path query : Text} (h : api.handle cfg env app req path query = some (app', some response)) :
    Plain response := by
  obtain ⟨_, code, body, hcode, hresponse⟩ | ⟨_, _, ⟨_, _, body, hresponse⟩ | ⟨_, hresponse, _⟩⟩ := api_cases h
  · exact Option.some.inj hresponse ▸ plain_json hcode body
  · exact Option.some.inj hresponse ▸ plain_json (by decide) body
  · cases hresponse

theorem notify_status {fs : FileSystem} {store : store.Store} {sub : subs.Sub} {req : callback.Request}
    {appends : Nat → callback.AppendEnv} {status : Nat}
    (h : (callback.handle_notify hmac fs store sub req appends).2.2.status = some status) : status = 204 := by
  unfold callback.handle_notify at h
  split at h
  · dsimp only at h
    split at h
    · cases h
    · exact (Option.some.inj h).symm
  · exact (Option.some.inj h).symm

theorem callback_plain {token query : Text}
    (h : callback.handle hmac cfg env app req token query = some (app', some response)) : Plain response := by
  obtain ⟨_, hresponse, _⟩ | ⟨sub, _, hcase⟩ := callback_cases h
  · cases hresponse
  obtain ⟨_, fs, store, answer, status, hhandled, hstatus, _, hresponse⟩ | ⟨_, _, hresponse⟩ := hcase
  · have haccepted : status = 204 := notify_status (by rw [hhandled]; exact hstatus)
    rw [haccepted] at hresponse
    exact Option.some.inj hresponse ▸ plain_empty (by decide)
  · exact Option.some.inj hresponse ▸ plain_empty (by decide)

theorem handle_plain (h : handle hmac cfg env app req = some (app', some response)) : Plain response := by
  unfold handle at h
  split at h
  · exact callback_plain h
  · exact api_plain h
  · obtain ⟨_, hresponse⟩ := Prod.mk.inj (Option.some.inj h)
    exact Option.some.inj hresponse ▸ plain_empty (by decide)

theorem Given.plain (h : Given hmac response) : Plain response := by
  cases h with
  | handled h => exact handle_plain h
  | confirmed challenge =>
    cases challenge with
    | none => exact plain_empty (by decide)
    | some challenge => exact ⟨(by decide : 200 < 2 ^ 16), .inr (.inl rfl)⟩
  | submitted outcome =>
    cases outcome with
    | failed error => exact plain_json (by decide) _
    | reconciled subscribed unsubscribed active => exact plain_json (by decide) _
    | busy => exact plain_json (by decide) _

theorem sent_eq (hplain : Plain response) : sent response =
    { status_code := response.status
      headers := (response.content_type.map (Header.mk "Content-Type".toList)).toList
      data := encode response.body
      data_length := some (encode response.body).length
      chunked_threshold := none } := by
  obtain ⟨status, content_type, body⟩ := response
  obtain hjson | htext | ⟨hnone, hbody⟩ := hplain.content
  · obtain rfl : content_type = some "application/json".toList := hjson
    have hadded : ∀ data, (tiny_http.response.Response.add_header ⟨status,
        [⟨"Content-Type".toList, "text/plain; charset=UTF-8".toList⟩], data, some data.length, none⟩
          ⟨"Content-Type".toList, "application/json".toList⟩) =
        ⟨status, [⟨"Content-Type".toList, "application/json".toList⟩], data, some data.length, none⟩ := by
      intro data
      rfl
    have hother : "application/json".toList ≠ "text/plain; charset=UTF-8".toList := by decide
    rw [sent]
    simp only [if_neg hother]
    exact hadded (encode body)
  · obtain rfl : content_type = some "text/plain; charset=UTF-8".toList := htext
    rw [sent]
    simp only [if_true]
    rfl
  · obtain rfl : content_type = none := hnone
    obtain rfl : body = [] := hbody
    rfl

theorem json_wellFormed : Header.WellFormed ⟨"Content-Type".toList, "application/json".toList⟩ where
  field := by simp [isWhitespace]
  value := by simp
  trimmed := by rfl
  short := by simp [Header.line, tiny_http.client.MAX_LINE_BYTES]

theorem text_wellFormed : Header.WellFormed ⟨"Content-Type".toList, "text/plain; charset=UTF-8".toList⟩ where
  field := by simp [isWhitespace]
  value := by simp
  trimmed := by rfl
  short := by simp [Header.line, tiny_http.client.MAX_LINE_BYTES]

theorem sent_wellFormed (hplain : Plain response) (hsized : (encode response.body).length < 2 ^ 64) :
    (sent response).WellFormed := by
  have hheaders : ∀ h ∈ (response.content_type.map (Header.mk "Content-Type".toList)).toList,
      h = ⟨"Content-Type".toList, "application/json".toList⟩ ∨
        h = ⟨"Content-Type".toList, "text/plain; charset=UTF-8".toList⟩ := by
    intro h hmem
    obtain ⟨content_type, hcontent, rfl⟩ := Option.map_eq_some_iff.mp (Option.mem_toList.mp hmem)
    obtain hjson | htext | ⟨hnone, _⟩ := hplain.content
    · rw [hjson, Option.some.injEq] at hcontent
      exact .inl (by rw [hcontent])
    · rw [htext, Option.some.injEq] at hcontent
      exact .inr (by rw [hcontent])
    · rw [hnone] at hcontent
      cases hcontent
  rw [sent_eq hplain]
  exact {
    status := hplain.status
    headers := fun h hmem => (hheaders h hmem).elim (· ▸ json_wellFormed) (· ▸ text_wellFormed)
    unframed := fun h hmem => (hheaders h hmem).elim (· ▸ by decide) (· ▸ by decide)
    few := by
      have hone : (response.content_type.map (Header.mk "Content-Type".toList)).toList.length ≤ 1 := by
        cases response.content_type with
        | none => exact Nat.zero_le _
        | some content_type => exact le_rfl
      exact (Nat.add_le_add_right hone 3).trans (by decide)
    length := rfl
    sized := hsized }

theorem find_content_type {asked : Asked} {encoding : TransferEncoding} (hplain : Plain response) :
    find_header (sent_headers asked (sent response) encoding) "Content-Type".toList = response.content_type := by
  rw [find_sent_header (by decide) (by decide) (by decide) (by decide), sent_eq hplain]
  cases response.content_type with
  | none => rfl
  | some content_type =>
    have hsame : Header.equiv ⟨"Content-Type".toList, content_type⟩ "Content-Type".toList = true :=
      (by decide : eq_ignore_ascii_case "Content-Type".toList "Content-Type".toList = true)
    simp only [Option.map_some, Option.toList_some, find_header, List.find?_cons, hsame]

/-- What a client makes of a response that it has read. -/
def understood (reply : Reply) : Option Response := do
  some {
    status := reply.status
    content_type := find_header reply.headers "Content-Type".toList
    body := ← decode reply.body }

/-- The response as the request lets it be seen. -/
def seen (asked : Asked) (response : Response) : Response :=
  { response with body := if asked.is_head || bodiless response.status then [] else response.body }

theorem understood_reply {asked : Asked} {encoding : TransferEncoding} (hplain : Plain response) :
    understood (reply asked (sent response) encoding) = some (seen asked response) := by
  have hbody : decode (body asked (sent response)) =
      some (if asked.is_head || bodiless response.status then [] else response.body) := by
    rw [body, sent_eq hplain]
    split
    · rfl
    · exact decode_encode response.body
  have hstatus : (sent response).status_code = response.status := by rw [sent_eq hplain]
  rw [understood, reply]
  simp only [bind, hbody, Option.bind_some, find_content_type hplain, hstatus]
  rfl

/-- What the responses to the requests of a connection are printed from. -/
def exchanges (answers : List (Asked × Response)) : List Exchange :=
  answers.map fun x => ⟨x.1, sent x.2⟩

/-- The responses to any requests of a connection can be printed where the qualities that
each request gives can be put in order; and from what is printed the client makes out the
responses of the relay one by one, whatever their bodies and whichever encodings the
requests ask for. -/
theorem answers_read {F : Type} {q : Quality F} {encoder : Bytes → Bytes} {decoder : Bytes → Option (Bytes × Bytes)}
    (hdecoder : ∀ data rest, decoder (encoder data ++ rest) = some (data, rest)) {answers : List (Asked × Response)}
    (hasked : ∀ x ∈ answers, x.1.WellFormed) (hgiven : ∀ x ∈ answers, Given hmac x.2)
    (hsized : ∀ x ∈ answers, (encode x.2.body).length < 2 ^ 64) :
    (q.Sorts → (∀ x ∈ answers, Comparable q x.1.request_headers) →
      (print_all q encoder (exchanges answers)).isSome = true) ∧
    ∀ bytes, print_all q encoder (exchanges answers) = some bytes → ∀ rest,
      ∃ replies, read_replies decoder (answers.map fun x => x.1.is_head) (bytes ++ rest) = some (replies, rest) ∧
        replies.map understood = answers.map fun x => some (seen x.1 x.2) := by
  constructor
  · intro hsorts hcomparable
    exact print_all_isSome hsorts encoder (List.forall_mem_map.mpr hcomparable)
  · intro bytes hprinted rest
    have hwf : ∀ x ∈ exchanges answers, x.asked.WellFormed ∧ x.given.WellFormed :=
      List.forall_mem_map.mpr fun x hx => ⟨hasked x hx, sent_wellFormed (hgiven x hx).plain (hsized x hx)⟩
    obtain ⟨replies, hread, htold⟩ := read_replies_print hwf hdecoder hprinted rest
    rw [exchanges, List.map_map] at hread
    rw [exchanges, List.forall₂_map_left_iff] at htold
    refine ⟨replies, hread, ?_⟩
    clear hread hprinted hwf hsized hasked
    induction htold with
    | nil => rfl
    | cons hanswer _ ih =>
      obtain ⟨hx, hlater⟩ := List.forall_mem_cons.mp hgiven
      obtain ⟨encoding, rfl⟩ := hanswer
      rw [List.map_cons, List.map_cons, ih hlater, understood_reply hx.plain]

section bytewise

/-! Chunks of one byte each. -/

def bytewise_encoder (data : Bytes) : Bytes :=
  data.flatMap (fun b => [49, 13, 10, b, 13, 10]) ++ [48, 13, 10, 13, 10]

def bytewise_decoder : Bytes → Option (Bytes × Bytes)
  | 49 :: 13 :: 10 :: b :: 13 :: 10 :: later => (bytewise_decoder later).map fun (data, rest) => (b :: data, rest)
  | 48 :: 13 :: 10 :: 13 :: 10 :: rest => some ([], rest)
  | _ => none

theorem bytewise_decoder_encoder (data rest : Bytes) :
    bytewise_decoder (bytewise_encoder data ++ rest) = some (data, rest) := by
  induction data with
  | nil => rfl
  | cons b data ih =>
    have hchunk : bytewise_encoder (b :: data) ++ rest =
        49 :: 13 :: 10 :: b :: 13 :: 10 :: (bytewise_encoder data ++ rest) := rfl
    rw [hchunk, bytewise_decoder, ih, Option.map_some]

end bytewise

/-- Whole qualities. -/
def whole_quality : Quality Nat where
  one := 1
  from_str := parseDigits
  ignored n := n = 0
  partial_cmp a b := some (compare a b)
  sort_by cmp xs := some (xs.mergeSort fun a b => cmp a b ≠ .gt)

theorem whole_quality_orders (xs : List (Text × Nat)) : Orders (by_quality whole_quality) xs where
  swap a _ b _ := (Nat.compare_swap b.2 a.2).symm
  trans a _ b _ c _ hab hbc := by
    simp only [by_quality, whole_quality, Option.getD_some, ne_eq, Nat.compare_eq_gt, not_lt] at hab hbc ⊢
    exact hbc.trans hab

def epoch (request_headers : List Header) : Asked where
  http_version := ⟨1, 1⟩
  request_headers := request_headers
  is_head := false
  date := "Thu, 01 Jan 1970 00:00:00 GMT".toList

theorem epoch_wellFormed (request_headers : List Header) : (epoch request_headers).WellFormed where
  version := (by decide : (⟨1, 1⟩ : tiny_http.HTTPVersion) ∈ tiny_http.client.versions)
  date :=
    { field := by simp [isWhitespace]
      value := by simp [epoch]
      trimmed := by rfl
      short := by simp [epoch, Header.line, tiny_http.client.MAX_LINE_BYTES] }

/-- A request without a token, one for a path that does not exist, whose client asks for
chunks, and a verification. -/
def turned_away : List (Asked × Response) :=
  [(epoch [], api.json_response 401 "\x7b\"error\":\"unauthorized\"\x7d".toList),
    (epoch [⟨"TE".toList, "chunked".toList⟩], .empty 404), (epoch [], callback.confirmation (some "x".toList))]

theorem answers_read_turned_away :
    ∃ bytes, print_all whole_quality bytewise_encoder (exchanges turned_away) = some bytes ∧
      ∃ replies, read_replies bytewise_decoder (turned_away.map fun x => x.1.is_head) (bytes ++ []) =
          some (replies, []) ∧
        replies.map understood = turned_away.map fun x => some (seen x.1 x.2) := by
  have hasked : ∀ x ∈ turned_away, x.1.WellFormed := by
    simp only [turned_away, List.forall_mem_cons]
    exact ⟨epoch_wellFormed _, epoch_wellFormed _, epoch_wellFormed _, fun x hx => absurd hx List.not_mem_nil⟩
  let app := (delivery.System.init delivery.subscribed_server).app
  have hgiven : ∀ x ∈ turned_away, Given (fun _ _ => []) x.2 := by
    simp only [turned_away, List.forall_mem_cons]
    refine ⟨?_, ?_, .confirmed _, fun x hx => absurd hx List.not_mem_nil⟩
    · exact @Given.handled _ config.example_config delivery.quiet_env app _ ⟨.get, "/api/events".toList, [], []⟩ _ rfl
    · exact @Given.handled _ config.example_config delivery.quiet_env app _ ⟨.get, "/".toList, [], []⟩ _ rfl
  have hsized : ∀ x ∈ turned_away, (encode x.2.body).length < 2 ^ 64 := by
    simp only [turned_away, List.forall_mem_cons]
    refine ⟨?_, (by decide : (encode []).length < 2 ^ 64), ?_, fun x hx => absurd hx List.not_mem_nil⟩
    · exact (by decide +kernel :
        (encode "\x7b\"error\":\"unauthorized\"\x7d".toList).length < 2 ^ 64)
    · exact (by decide +kernel : (encode "x".toList).length < 2 ^ 64)
  obtain ⟨hprints, hread⟩ := @answers_read _ _ whole_quality _ _ bytewise_decoder_encoder _ hasked hgiven hsized
  obtain ⟨bytes, hbytes⟩ := Option.isSome_iff_exists.mp
    (hprints (fun _ _ _ => rfl) fun _ _ _ _ => whole_quality_orders _)
  exact ⟨bytes, hbytes, hread bytes hbytes []⟩

end yt_websub.http
