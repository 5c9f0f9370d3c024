import YtWebsub.App.Answer

open rust rust.utf8 rust.text rust.num rust.map rust.fs
open tiny_http.response hiding Response
open yt_websub.app yt_websub.subs
open yt_websub.callback (notification)
open yt_websub.callback.attribution (Signed authenticated_iff)
open yt_websub.http.delivery (System quiet_env subscribed_server deletion_request)

namespace yt_websub.http.outsiders

/-- A request, with what its handling meets. -/
structure Call where
  env : Env
  version : tiny_http.HTTPVersion
  date : Text
  req : Request
  /-- The order in which `save` would meet the subs. -/
  order : List Sub

def Call.asked (c : Call) : Asked where
  http_version := c.version
  request_headers := c.req.headers
  is_head := c.req.method = .head
  date := c.date

/-- What a handler does after it has looked up the token of a verification, with no other
thread in between. -/
def verify (cfg : server.Config) (s : server.Server) (i : Nat) (order : List Sub) : Option server.Server :=
  match s.gets[i]? with
  | some (.found _ _) => server.step cfg s (.get_verify i order)
  | some (.unknown _ _) => do
    let s ← server.step cfg s (.get_unsub_topic i s.clock)
    match s.gets[i]? with
    | some (.confirming _ _ _) => server.step cfg s (.get_forget i)
    | _ => some s
  | _ => none

variable {F : Type}

/-- Verifications have been answered, and nothing else has changed. -/
def answered (app : App) (challenges : List (Option Text)) : App :=
  { app with server := { app.server with gets := app.server.gets ++ challenges.map .answered } }

variable {hmac : Bytes → Bytes → Bytes} {cfg : config.Config} {q : Quality F} {encoder : Bytes → Bytes} {app : App}
  {c : Call}

section strangers

variable {req : Request} {reg : Registry} {now : U64}

end strangers

end yt_websub.http.outsiders
