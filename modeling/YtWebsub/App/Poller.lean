import YtWebsub.App.Effect
import YtWebsub.Callback.Query
import YtWebsub.Store.Delivery

open rust rust.utf8 rust.text rust.num rust.map rust.fs
open tiny_http (Header Method)
open paging
open yt_websub.util yt_websub.store yt_websub.subs yt_websub.app

namespace yt_websub.http

section client

/-! The client that polls the events over HTTP. -/

def authorization (bearer_token : Text) : Header :=
  ⟨"Authorization".toList, "Bearer ".toList ++ bearer_token⟩

def events_query (after : U64) (max : U64) : Text :=
  "after=".toList ++ to_string after ++ "&max=".toList ++ to_string max

def events_request (bearer_token : Text) (after max : U64) : Request where
  method := .get
  url := "/api/events?".toList ++ events_query after max
  headers := [authorization bearer_token]
  received := []

def ack_request (bearer_token : Text) (through : U64) : Request where
  method := .post
  url := "/api/ack".toList
  headers := [authorization bearer_token]
  received := encode ("\x7b\"through\":".toList ++ to_string through ++ ['}'])

def u64_of : json.Data → Option U64
  | .number q => if h : q.num.toNat < 2 ^ 64 ∧ (q.num.toNat : ℚ) = q then some ⟨q.num.toNat, h.1⟩ else none
  | _ => none

def text_of : json.Data → Option Text
  | .string s => some s
  | _ => none

def event_of : json.Data → Option Event
  | .object members => do
    some {
      seq := ← (members.lookup "seq".toList).bind u64_of
      received_at := ← (members.lookup "received_at".toList).bind u64_of
      kind := ← (members.lookup "kind".toList).bind text_of
      channel_id := ← (members.lookup "channel_id".toList).bind text_of
      video_id := ← (members.lookup "video_id".toList).bind text_of
      ts := ← (members.lookup "ts".toList).bind text_of
      title := ← (members.lookup "title".toList).bind text_of }
  | _ => none

/-- The events of a response. -/
def events_of (response : Response) : Option (List Event) :=
  if response.status = 200 then
    match json.parse response.body with
    | some (.object members) =>
      match members.lookup "events".toList with
      | some (.array items) => items.mapM event_of
      | _ => none
    | _ => none
  else none

theorem u64_of_number (n : U64) : u64_of (.number n.val) = some n := by
  have hval : (n.val : ℚ).num.toNat = n.val := by simp
  change (if h : (n.val : ℚ).num.toNat < 2 ^ 64 ∧ ((n.val : ℚ).num.toNat : ℚ) = n.val then
    some (⟨(n.val : ℚ).num.toNat, h.1⟩ : U64) else none) = some n
  rw [dif_pos ⟨by rw [hval]; exact n.isLt, by rw [hval]⟩]
  exact congrArg some (Fin.ext hval)

theorem lookup_member {name other : Text} {d : json.Data} {members : List (Text × json.Data)} (h : name ≠ other) :
    ((other, d) :: members).lookup name = members.lookup name := by
  rw [List.lookup_cons, beq_eq_false_iff_ne.mpr h]

theorem lookup_member_self (name : Text) (d : json.Data) (members : List (Text × json.Data)) :
    ((name, d) :: members).lookup name = some d := by
  rw [List.lookup_cons, beq_self_eq_true]

theorem event_of_fields (e : Event) : event_of (api.Fields.data (api.event_fields e)) = some e := by
  simp only [api.Fields.data, api.event_fields, api.Field.data, List.map_cons, List.map_nil]
  rw [event_of]
  simp (disch := decide) only [lookup_member_self, lookup_member, Option.bind_some, u64_of_number, text_of]
  rfl

theorem mapM_map_some {α β : Type} {f : α → β} {g : β → Option α} (h : ∀ a, g (f a) = some a) (l : List α) :
    (l.map f).mapM g = some l := by
  induction l with
  | nil => rfl
  | cons a l ih => rw [List.map_cons, List.mapM_cons, h, ih]; rfl

theorem events_of_body (events : List Event) (max_seq : U64) :
    events_of (api.json_response 200 (api.events_body events max_seq)) = some events := by
  have hcomplete := api.listing_complete "events".toList "max_seq".toList max_seq.val (by simp [json.Piece.Valid])
    (List.forall_mem_map.mpr fun e (_ : e ∈ events) => api.event_fields_plain e)
  rw [← api.events_body_eq] at hcomplete
  have hparse := hcomplete.parse_eq (api.listing_value_data _ _ _ _)
  rw [api.listing_data, List.map_map] at hparse
  have hitems := mapM_map_some (f := api.Fields.data ∘ api.event_fields) event_of_fields events
  rw [events_of, if_pos (show (api.json_response 200 (api.events_body events max_seq)).status = 200 from rfl)]
  have hbody : (api.json_response 200 (api.events_body events max_seq)).body = api.events_body events max_seq := by
    rw [api.json_response]
  rw [hbody, hparse]
  simp only [lookup_member_self]
  exact hitems

theorem alphanum_to_string (n : Nat) : form.RendersText (to_string n) (to_string n) :=
  form.RendersText.of_alphanum fun c hc => by
    rw [Char.isAlphanum, isDigit_of_mem_to_string hc, Bool.or_true]

theorem renders_after : form.RendersText "after".toList "after".toList :=
  form.RendersText.of_alphanum (List.all_eq_true.mp (by rfl))

theorem renders_max : form.RendersText "max".toList "max".toList :=
  form.RendersText.of_alphanum (List.all_eq_true.mp (by rfl))

theorem events_query_eq (after max : U64) : events_query after max =
    ['&'].intercalate ["after".toList ++ '=' :: to_string after.val, "max".toList ++ '=' :: to_string max.val] := by
  have hleft : "after=".toList = "after".toList ++ ['='] := by simp
  have hright : "&max=".toList = '&' :: "max".toList ++ ['='] := by simp
  delta events_query -- the equation lemma of a text is slow to generate
  rw [hleft, hright]
  simp only [List.intercalate, List.intersperse, List.flatten_cons, List.flatten_nil, List.append_assoc,
    List.cons_append, List.nil_append, List.append_nil]

theorem events_query_renders (after max : U64) :
    form.Renders [("after".toList, to_string after.val), ("max".toList, to_string max.val)] (events_query after max) :=
  ⟨_, .pair renders_after (alphanum_to_string _) (.pair renders_max (alphanum_to_string _) .nil),
    events_query_eq after max⟩

theorem query_get_events (after max : U64) :
    api.after_of (events_query after max) = after ∧ api.max_of (events_query after max) = min max.val 2000 := by
  have hget := callback.query_get_rendered (events_query_renders after max)
  have hne : "after".toList ≠ "max".toList := by decide
  constructor
  · rw [api.after_of, hget, form.first_cons, if_pos rfl, Option.bind_some, parse_to_string, Option.getD_some]
  · rw [api.max_of, hget, form.first_cons, if_neg hne, form.first_cons, if_pos rfl, Option.bind_some, parse_to_string,
      Option.getD_some]

theorem route_events (query : Text) : route ("/api/events?".toList ++ query) = .api "/api/events".toList query := by
  have hurl : "/api/events?".toList ++ query = "/api/events".toList ++ '?' :: query := by simp
  have hmark : '?' ∉ "/api/events".toList := by decide
  have hsplit : split_once ['?'] ("/api/events?".toList ++ query) = some ("/api/events".toList, query) := by
    rw [hurl, split_once, find_singleton hmark]
    simp only [Option.map_some, List.take_left, List.length_singleton, Option.some.injEq, Prod.mk.injEq, true_and]
    rw [List.drop_append, List.drop_eq_nil_of_le (Nat.le_succ _), Nat.add_sub_cancel_left]
    rfl
  rw [route, hsplit]
  rfl

theorem authed_authorization (bearer_token : Text) : api.authed bearer_token [authorization bearer_token] = true := by
  have hfield : (authorization bearer_token).equiv "Authorization".toList = true := by
    delta authorization
    exact (by decide : eq_ignore_ascii_case "Authorization".toList "Authorization".toList = true)
  have hvalue : ct_eq (encode (authorization bearer_token).value) (encode ("Bearer ".toList ++ bearer_token)) = true :=
    ct_eq_iff.mpr (congrArg encode (by delta authorization; rfl))
  rw [api.authed, List.any_cons, hfield, hvalue]
  rfl

theorem extract_u64_through (through : U64) :
    api.extract_u64 ("\x7b\"through\":".toList ++ to_string through ++ ['}']) "through".toList = some through := by
  have htext : "\x7b\"through\":".toList ++ to_string through ++ ['}'] =
      ['{'] ++ ('"' :: "through".toList ++ ['"'] ++ (':' :: (to_string through.val ++ ['}']))) := by simp
  have hfind : find ('"' :: "through".toList ++ ['"'])
      (['{'] ++ ('"' :: "through".toList ++ ['"'] ++ (':' :: (to_string through.val ++ ['}'])))) = some 1 := by
    rw [List.singleton_append, find, if_neg (by simp [List.isPrefixOf]), find_append_self]
    rfl
  have hrest : (['{'] ++ ('"' :: "through".toList ++ ['"'] ++ (':' :: (to_string through.val ++ ['}'])))).drop
      (1 + ('"' :: "through".toList ++ ['"']).length) = ':' :: (to_string through.val ++ ['}']) := by simp
  have hdigits : ∀ c ∈ to_string through.val, c.isDigit = true := fun c hc => isDigit_of_mem_to_string hc
  have htake : (to_string through.val ++ ['}']).takeWhile Char.isDigit = to_string through.val := by
    rw [List.takeWhile_append_of_pos hdigits, List.takeWhile_cons_of_neg (by decide), List.append_nil]
  have hstart : trimStart (to_string through.val ++ ['}']) = to_string through.val ++ ['}'] := by
    rw [trimStart_append_cons (by decide),
      trimStart_of_not_whitespace fun c hc => not_whitespace_of_isDigit (hdigits c hc)]
  rw [htext, api.extract_u64, hfind]
  have hcolon : strip_start [':'] (trimStart (':' :: (to_string through.val ++ ['}']))) =
      some (to_string through.val ++ ['}']) := by
    rw [trimStart, List.dropWhile_cons_of_neg (by decide)]
    rfl
  simp only [bind, Option.bind_some, hrest, hcolon, hstart, htake, parse_to_string]

theorem poll_handled {hmac : Bytes → Bytes → Bytes} {cfg : config.Config} {env : Env} {app : App} {after max : U64} :
    handle hmac cfg env app (events_request cfg.bearer_token after max) =
      (app.store.events_after app.fs after (min max.val 2000)).map fun events =>
        (app, some (api.json_response 200 (api.events_body events app.store.max_seq))) := by
  obtain ⟨hafter, hmax⟩ := query_get_events after max
  have hhealth : "/api/events".toList ≠ "/api/health".toList := by decide
  have hroute : route (events_request cfg.bearer_token after max).url =
      .api "/api/events".toList (events_query after max) := route_events _
  have hauthed : ¬ api.authed cfg.bearer_token (events_request cfg.bearer_token after max).headers = false := by
    rw [Bool.not_eq_false]
    exact authed_authorization cfg.bearer_token
  rw [handle, hroute]
  simp only
  rw [api.handle, if_neg hauthed, if_neg fun h => hhealth h.2, if_pos ⟨rfl, rfl⟩, hafter, hmax]

theorem read_body_ack (through : U64) :
    api.read_body (ack_request [] through).received = "\x7b\"through\":".toList ++ to_string through ++ ['}'] := by
  have hlow : ∀ c ∈ "\x7b\"through\":".toList ++ to_string through ++ ['}'], c.toNat < 0x80 := by
    intro c hc
    simp only [List.mem_append, List.mem_singleton] at hc
    obtain (hc | hc) | rfl := hc
    · have hname : ∀ c ∈ "\x7b\"through\":".toList, c.toNat < 0x80 := by simp
      exact hname c hc
    · have hdigit := (Char.isDigit_iff_toNat.mp (isDigit_of_mem_to_string hc)).2
      exact hdigit.trans_lt (by decide)
    · decide
  have hlength : (encode ("\x7b\"through\":".toList ++ to_string through ++ ['}'])).length ≤ api.MAX_BODY := by
    have hdigits := length_to_string_le through.isLt
    rw [encode_ascii hlow, List.length_map, List.length_append, List.length_append]
    have hname : "\x7b\"through\":".toList.length = 11 := by simp
    rw [hname, List.length_singleton, api.MAX_BODY]
    omega
  delta ack_request
  rw [api.read_body, List.take_of_length_le hlength, lossy_encode]

theorem ack_handled {hmac : Bytes → Bytes → Bytes} {cfg : config.Config} {env : Env} {app : App} {through : U64} :
    handle hmac cfg env app (ack_request cfg.bearer_token through) =
      some ({ app with
        fs := (app.store.set_ack app.fs through env.ack_fault).1
        store := (app.store.set_ack app.fs through env.ack_fault).2 },
        some (api.json_response 200 "\x7b\"ok\":true\x7d".toList)) := by
  have hroute : route (ack_request cfg.bearer_token through).url = .api "/api/ack".toList [] := by
    have hurl : route "/api/ack".toList = .api "/api/ack".toList [] := by decide
    exact hurl
  have hauthed : ¬ api.authed cfg.bearer_token (ack_request cfg.bearer_token through).headers = false := by
    rw [Bool.not_eq_false]
    exact authed_authorization cfg.bearer_token
  have hbody : api.extract_u64 (api.read_body (ack_request cfg.bearer_token through).received) "through".toList =
      some through :=
    (congrArg (fun text => api.extract_u64 text "through".toList) (read_body_ack through)).trans
      (extract_u64_through through)
  have hget : (ack_request cfg.bearer_token through).method ≠ .get := by
    intro h
    cases h
  rw [handle, hroute]
  simp only
  rw [api.handle, if_neg hauthed, if_neg fun h => hget h.1, if_neg fun h => hget h.1, if_neg fun h => hget h.1,
    if_pos ⟨rfl, rfl⟩, hbody, Option.getD_some]

end client

end yt_websub.http
