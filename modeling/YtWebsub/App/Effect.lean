import YtWebsub.App
import YtWebsub.Callback.Notification

open rust rust.utf8 rust.text rust.num rust.fs
open yt_websub.util yt_websub.store yt_websub.subs

namespace yt_websub.http

open app
open callback (handle_notify notification)

/-- The request is authorised, and asks for the acknowledged cursor to move. -/
def Acks (cfg : config.Config) (req : Request) (through : U64) : Prop :=
  ∃ query, route req.url = .api "/api/ack".toList query ∧ req.method = .post ∧
    api.authed cfg.bearer_token req.headers = true ∧
    (api.extract_u64 (api.read_body req.received) "through".toList).getD 0 = through

/-- The events that the handler of the request records. -/
def arrivals (hmac : Bytes → Bytes → Bytes) (env : Env) (app : App) (req : Request) : List Event :=
  match route req.url with
  | .callback token _ =>
    match app.server.reg.by_token token with
    | some sub =>
      if req.method = .post then
        let req := notification req
        callback.notification.recorded sub env.appends 0 req.entries
          (handle_notify hmac app.fs app.store sub req env.appends).2.2.results
      else []
    | none => []
  | _ => []

/-- Everything that handling a request can do to the shared state. -/
inductive Effect (hmac : Bytes → Bytes → Bytes) (cfg : config.Config) (env : Env) (app : App) (req : Request) :
    App → Prop where
  | quiet (silent : arrivals hmac env app req = []) : Effect hmac cfg env app req app
  | lookup {token query : Text} {server : server.Server} (routed : route req.url = .callback token query)
    (verification : app.server.reg.by_token token = none ∨ req.method = .get) (silent : arrivals hmac env app req = [])
    (found : yt_websub.server.step ⟨cfg.lease_seconds⟩ app.server (.get_lookup token query) = some server) :
    Effect hmac cfg env app req { app with server }
  | notify {token query : Text} {sub : Sub} {fs : FileSystem} {store : Store} {answer : callback.Answer}
    (routed : route req.url = .callback token query) (found : app.server.reg.by_token token = some sub)
    (method : req.method = .post)
    (handled : handle_notify hmac app.fs app.store sub (notification req) env.appends =
      (fs, store, answer))
    (lived : answer.status.isSome = true)
    (arrived : arrivals hmac env app req =
      callback.notification.recorded sub env.appends 0 (notification req).entries answer.results) :
    Effect hmac cfg env app req { app with fs, store }
  | ack {through : U64} {fs : FileSystem} {store : Store} (asked : Acks cfg req through)
    (silent : arrivals hmac env app req = [])
    (set : app.store.set_ack app.fs through env.ack_fault = (fs, store)) :
    Effect hmac cfg env app req { app with fs, store }
  | submit {query : Text} {server : server.Server} (routed : route req.url = .api "/api/channels".toList query)
    (authorised : api.authed cfg.bearer_token req.headers = true) (method : req.method = .post)
    (silent : arrivals hmac env app req = [])
    (rendered : yt_websub.server.step ⟨cfg.lease_seconds⟩ app.server (.post_render req.received) = some server) :
    Effect hmac cfg env app req { app with server }

variable {hmac : Bytes → Bytes → Bytes} {cfg : config.Config} {env : Env} {app app' : App} {req : Request}
  {response : Option Response}

theorem arrivals_of_api {path query : Text} (hroute : route req.url = .api path query) :
    arrivals hmac env app req = [] := by
  rw [arrivals, hroute]

/-- What `api::handle` does: it answers, moves the acknowledged cursor, or takes in a list of
channels. -/
theorem api_cases {path query : Text} (h : api.handle cfg env app req path query = some (app', response)) :
    (app' = app ∧ ∃ code body, code < 2 ^ 16 ∧ response = some (api.json_response code body)) ∨
    (api.authed cfg.bearer_token req.headers = true ∧ req.method = .post ∧
      ((path = "/api/ack".toList ∧
          (∃ fs store, app.store.set_ack app.fs ((api.extract_u64 (api.read_body req.received) "through".toList).getD 0)
            env.ack_fault = (fs, store) ∧ app' = { app with fs, store }) ∧
          ∃ body, response = some (api.json_response 200 body)) ∨
        (path = "/api/channels".toList ∧ response = none ∧
          ∃ server, yt_websub.server.step ⟨cfg.lease_seconds⟩ app.server (.post_render req.received) = some server ∧
            app' = { app with server }))) := by
  have hanswer : ∀ {code : Nat} {body : Text}, code < 2 ^ 16 →
      (app, some (api.json_response code body)) = (app', response) →
      app' = app ∧ ∃ code body, code < 2 ^ 16 ∧ response = some (api.json_response code body) := by
    intro code body hcode heq
    obtain ⟨rfl, rfl⟩ := Prod.mk.inj heq
    exact ⟨rfl, code, body, hcode, rfl⟩
  unfold api.handle at h
  split at h
  · exact .inl (hanswer (by decide) (Option.some.inj h))
  rename_i hauthed
  rw [Bool.not_eq_false] at hauthed
  split at h
  · exact .inl (hanswer (by decide) (Option.some.inj h))
  split at h
  · obtain ⟨_, _, heq⟩ := Option.map_eq_some_iff.mp h
    exact .inl (hanswer (by decide) heq)
  split at h
  · exact .inl (hanswer (by decide) (Option.some.inj h))
  split at h
  · rename_i hack
    obtain ⟨rfl, rfl⟩ := Prod.mk.inj (Option.some.inj h)
    exact .inr ⟨hauthed, hack.1, .inl ⟨hack.2, ⟨_, _, rfl, rfl⟩, _, rfl⟩⟩
  split at h
  · rename_i hchannels
    obtain ⟨server, hserver, heq⟩ := Option.map_eq_some_iff.mp h
    obtain ⟨rfl, rfl⟩ := Prod.mk.inj heq
    exact .inr ⟨hauthed, hchannels.1, .inr ⟨hchannels.2, rfl, server, hserver, rfl⟩⟩
  · exact .inl (hanswer (by decide) (Option.some.inj h))

/-- What `callback::handle` does: it looks up a verification, takes in a notification, or
turns the method down. -/
theorem callback_cases {token query : Text}
    (h : callback.handle hmac cfg env app req token query = some (app', response)) :
    ((app.server.reg.by_token token = none ∨ req.method = .get) ∧ response = none ∧
      ∃ server, yt_websub.server.step ⟨cfg.lease_seconds⟩ app.server (.get_lookup token query) = some server ∧
        app' = { app with server }) ∨
    ∃ sub, app.server.reg.by_token token = some sub ∧
      ((req.method = .post ∧ ∃ fs store answer status,
          handle_notify hmac app.fs app.store sub (notification req) env.appends = (fs, store, answer) ∧
          answer.status = some status ∧ app' = { app with fs, store } ∧ response = some (.empty status)) ∨
        (req.method ≠ .post ∧ app' = app ∧ response = some (.empty 405))) := by
  have hlookup : callback.lookup cfg app token query = some (app', response) → response = none ∧
      ∃ server, yt_websub.server.step ⟨cfg.lease_seconds⟩ app.server (.get_lookup token query) = some server ∧
        app' = { app with server } := by
    intro h
    obtain ⟨server, hserver, heq⟩ := Option.map_eq_some_iff.mp h
    obtain ⟨rfl, rfl⟩ := Prod.mk.inj heq
    exact ⟨rfl, server, hserver, rfl⟩
  unfold callback.handle at h
  split at h
  · rename_i hnone
    exact .inl ⟨.inl hnone, hlookup h⟩
  · rename_i sub hsub
    split at h
    · rename_i hget
      exact .inl ⟨.inr hget, hlookup h⟩
    · rename_i hpost
      obtain ⟨status, hstatus, heq⟩ := Option.map_eq_some_iff.mp h
      obtain ⟨rfl, rfl⟩ := Prod.mk.inj heq
      exact .inr ⟨sub, hsub, .inl ⟨hpost, _, _, _, status, rfl, hstatus, rfl, rfl⟩⟩
    · rename_i hpost
      obtain ⟨rfl, rfl⟩ := Prod.mk.inj (Option.some.inj h)
      exact .inr ⟨sub, hsub, .inr ⟨hpost, rfl, rfl⟩⟩

theorem api_effect {path query : Text} (hroute : route req.url = .api path query)
    (h : api.handle cfg env app req path query = some (app', response)) : Effect hmac cfg env app req app' := by
  have hsilent : arrivals hmac env app req = [] := arrivals_of_api hroute
  obtain ⟨rfl, _⟩ | ⟨hauthed, hpost, ⟨rfl, ⟨fs, store, hset, rfl⟩, _⟩ | ⟨rfl, _, server, hserver, rfl⟩⟩ := api_cases h
  · exact .quiet hsilent
  · exact .ack ⟨query, hroute, hpost, hauthed, rfl⟩ hsilent hset
  · exact .submit hroute hauthed hpost hsilent hserver

theorem callback_effect {token query : Text} (hroute : route req.url = .callback token query)
    (h : callback.handle hmac cfg env app req token query = some (app', response)) :
    Effect hmac cfg env app req app' := by
  obtain ⟨hverification, _, server, hserver, rfl⟩ | ⟨sub, hsub, hcase⟩ := callback_cases h
  · refine .lookup hroute hverification ?_ hserver
    obtain hnone | hget := hverification
    · simp only [arrivals, hroute, hnone]
    · simp only [arrivals, hroute, hget, reduceCtorEq, if_false]
      cases app.server.reg.by_token token <;> rfl
  obtain ⟨hpost, fs, store, answer, status, hhandled, hstatus, rfl, _⟩ | ⟨hpost, rfl, _⟩ := hcase
  · refine .notify hroute hsub hpost hhandled (hstatus ▸ rfl) ?_
    simp only [arrivals, hroute, hsub, hpost, if_true, hhandled]
  · exact .quiet (by simp only [arrivals, hroute, hsub, if_neg hpost])

theorem handle_effect (h : handle hmac cfg env app req = some (app', response)) : Effect hmac cfg env app req app' := by
  unfold handle at h
  split at h
  · rename_i hroute
    exact callback_effect hroute h
  · rename_i hroute
    exact api_effect hroute h
  · rename_i hroute
    obtain ⟨rfl, _⟩ := Prod.mk.inj (Option.some.inj h)
    exact .quiet (by simp only [arrivals, hroute])

end yt_websub.http
