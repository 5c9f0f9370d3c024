import YtWebsub.Api.Emission
import YtWebsub.Config
import YtWebsub.Server
import YtWebsub.TinyHttp.Client

open rust rust.utf8 rust.text rust.num rust.map rust.fs
open tiny_http (Header Method)
open yt_websub.util yt_websub.store yt_websub.subs

namespace yt_websub

namespace app

/-- The state that the workers share. The registry comes with the threads that change it. -/
structure App where
  server : server.Server
  /-- The directory of the event store. -/
  fs : FileSystem
  store : Store

structure Request where
  method : Method
  url : Text
  headers : List Header
  /-- The bytes that arrive before the end of the body, or before a read error. -/
  received : Bytes

structure Response where
  status : Nat
  content_type : Option Text
  body : Text
deriving DecidableEq

/-- What a handler meets: the clocks, and the I/O operations that fail. -/
structure Env where
  now : U64
  /-- `as_secs_f64` of the uptime, printed. -/
  uptime : Text
  appends : Nat → callback.AppendEnv
  ack_fault : Option AtomicFault

/-- What a handler leaves, unless the process aborts: the response is missing where a
later step of its thread sends it. -/
abbrev Handled := Option (App × Option Response)

def Response.empty (status : Nat) : Response where
  status := status
  content_type := none
  body := []

/-- `Response::from_string`, as it is sent without more. -/
def Response.from_string (body : Text) : Response where
  status := 200
  content_type := some "text/plain; charset=UTF-8".toList
  body := body

end app

open app

namespace api

def json_response (code : Nat) (body : Text) : Response where
  status := code
  content_type := some "application/json".toList
  body := body

def authed (bearer_token : Text) (headers : List Header) : Bool :=
  headers.any fun h =>
    h.equiv "Authorization".toList && ct_eq (encode h.value) (encode ("Bearer ".toList ++ bearer_token))

/-- The value of `after` that a query asks for. -/
def after_of (query : Text) : U64 :=
  ((query_get query "after".toList).bind (parse 64)).getD 0

def max_of (query : Text) : Nat :=
  min (((query_get query "max".toList).bind (parse 64)).getD 500).val 2000

def health_body (h : Health) (max_seq now : U64) (uptime : Text) : Text :=
  "\x7b\"ok\":true,\"subs_active\":".toList ++ to_string h.subs_active ++ ",\"subs_expired\":".toList ++
    to_string h.subs_expired ++ ",\"subs_failed\":".toList ++ to_string h.subs_failed ++
    ",\"subs_pending\":".toList ++ to_string h.subs_pending ++ ",\"subs_total\":".toList ++
    to_string h.subs_total ++ ",\"max_seq\":".toList ++ to_string max_seq ++ ",\"now\":".toList ++ to_string now ++
    ",\"uptime_secs\":".toList ++ uptime ++ ",\"version\":".toList ++ json_string "0.1.0".toList ++ ['}']

def handle (cfg : config.Config) (env : Env) (app : App) (req : Request) (path query : Text) : Handled :=
  if authed cfg.bearer_token req.headers = false then
    some (app, some (json_response 401 "\x7b\"error\":\"unauthorized\"\x7d".toList))
  else if req.method = .get ∧ path = "/api/health".toList then
    let h := health app.server.reg env.now
    some (app, some (json_response 200 (health_body h app.store.max_seq env.now env.uptime)))
  else if req.method = .get ∧ path = "/api/events".toList then
    -- The process aborts where the cursor has no successor.
    (app.store.events_after app.fs (after_of query) (max_of query)).map fun events =>
      (app, some (json_response 200 (events_body events app.store.max_seq)))
  else if req.method = .get ∧ path = "/api/channels".toList then
    some (app, some (json_response 200 (channels_body (values app.server.reg.subs))))
  else if req.method = .post ∧ path = "/api/ack".toList then
    let through := (extract_u64 (read_body req.received) "through".toList).getD 0
    let (fs, store) := app.store.set_ack app.fs through env.ack_fault
    some ({ app with fs, store }, some (json_response 200 "\x7b\"ok\":true\x7d".toList))
  else if req.method = .post ∧ path = "/api/channels".toList then
    -- The body is rendered; the write and the reconcile follow.
    (server.step ⟨cfg.lease_seconds⟩ app.server (.post_render req.received)).map fun server =>
      ({ app with server }, none)
  else some (app, some (json_response 404 "\x7b\"error\":\"not found\"\x7d".toList))

/-- How a submission of channels ends. -/
inductive Submitted where
  | failed (error : Text)
  | reconciled (subscribed unsubscribed active : Nat)
  | busy

/-- The response of a submission, which a later step of its thread sends. -/
def channels_response : Submitted → Response
  | .failed error => json_response 500 ("\x7b\"error\":".toList ++ json_string error ++ ['}'])
  | .reconciled subscribed unsubscribed active =>
    json_response 200 ("\x7b\"subscribed\":".toList ++ to_string subscribed ++ ",\"unsubscribed\":".toList ++
      to_string unsubscribed ++ ",\"active\":".toList ++ to_string active ++ ['}'])
  | .busy =>
    json_response 202
      ("\x7b\"status\":\"accepted\",\"note\":\"reconcile already running; " ++
        "change will be applied shortly\"\x7d").toList

end api

namespace callback

/-- The response to a verification, which a later step of its thread sends. -/
def confirmation (challenge : Option Text) : yt_websub.app.Response :=
  challenge.elim (.empty 404) .from_string

def notification (req : yt_websub.app.Request) : Request where
  headers := req.headers.map fun h => (h.field, h.value)
  received := req.received

/-- The token is looked up; a verification is answered by later steps. -/
def lookup (cfg : config.Config) (app : App) (token query : Text) : Handled :=
  (server.step ⟨cfg.lease_seconds⟩ app.server (.get_lookup token query)).map fun server => ({ app with server }, none)

def handle (hmac : Bytes → Bytes → Bytes) (cfg : config.Config) (env : Env) (app : App) (req : yt_websub.app.Request)
    (token query : Text) : Handled :=
  match app.server.reg.by_token token with
  | none => lookup cfg app token query
  | some sub =>
    match req.method with
    | .get => lookup cfg app token query
    | .post =>
      let (fs, store, answer) := handle_notify hmac app.fs app.store sub (notification req) env.appends
      answer.status.map fun status => ({ app with fs, store }, some (.empty status))
    | _ => some (app, some (.empty 405))

end callback

namespace http

inductive Route where
  | callback (token query : Text)
  | api (path query : Text)
  | other
deriving DecidableEq

def route (url : Text) : Route :=
  let (path, query) := (split_once ['?'] url).getD (url, [])
  match strip_start "/yt/cb/".toList path with
  | some token => .callback (config.trim_slashes token) query
  | none => if "/api/".toList.isPrefixOf path then .api path query else .other

def handle (hmac : Bytes → Bytes → Bytes) (cfg : config.Config) (env : Env) (app : App) (req : Request) : Handled :=
  match route req.url with
  | .callback token query => callback.handle hmac cfg env app req token query
  | .api path query => api.handle cfg env app req path query
  | .other => some (app, some (.empty 404))

end http

end yt_websub
