import YtWebsub.App.Poller
import YtWebsub.Callback.Attribution
import YtWebsub.Config.Written

open rust rust.utf8 rust.text rust.num rust.map rust.fs
open paging
open yt_websub.util yt_websub.store yt_websub.subs yt_websub.app
open yt_websub.callback (notification)
open yt_websub.callback.notification (recorded appendCall eventOf append_entries_cons handle_notify_of_authenticated
  of_mem_recorded)
open yt_websub.callback.attribution (Signed Carries authenticated_iff)

namespace yt_websub.http.delivery

/-- The daemon, and a client that polls it over HTTP. -/
structure System where
  app : App
  /-- Every event recorded so far. -/
  history : List Event
  /-- The client's cursor, and every event it has decoded. -/
  cursor : U64
  delivered : List Event
  /-- Events that a compaction dropped for their age. -/
  retired : List Event

/-- The event store is opened in an empty directory. -/
def System.init (server : server.Server) : System where
  app := { server, fs := (Store.open .empty).1, store := (Store.open .empty).2 }
  history := []
  cursor := 0
  delivered := []
  retired := []

inductive Action where
  /-- Anyone sends a request. -/
  | request (env : Env) (req : Request)
  /-- The client asks for what follows its cursor, and reads the response. -/
  | poll (env : Env) (max : U64)
  | ack (env : Env) (through : U64)
  /-- Another step of the registry and its threads. -/
  | registry (a : server.Action)
  | compact
  /-- The process ends and is started again. -/
  | restart (cache : HashMap Text Text)

variable (hmac : Bytes → Bytes → Bytes) (cfg : config.Config)

def step (s : System) : Action → Option System
  | .request env req => do
    let (app, _) ← handle hmac cfg env s.app req
    return { s with app, history := s.history ++ arrivals hmac env s.app req }
  | .poll env max => do
    let (app, response) ← handle hmac cfg env s.app (events_request cfg.bearer_token s.cursor max)
    let events ← events_of (← response)
    return { s with app, cursor := advance Event.seq s.cursor events, delivered := s.delivered ++ events }
  | .ack env through => do
    let (app, _) ← handle hmac cfg env s.app (ack_request cfg.bearer_token through)
    return { s with app }
  | .registry a => do
    let server ← server.step ⟨cfg.lease_seconds⟩ s.app.server a
    return { s with app := { s.app with server } }
  | .compact =>
    match s.app.store.maybe_compact s.app.fs none with
    | (fs, store, true) =>
      let old (e : Event) : Bool :=
        e ∉ logged fs ∧ e.seq ≤ saturating_sub s.app.store.max_seq MAX_RETAINED_EVENTS
      some { s with app := { s.app with fs, store }, retired := s.retired ++ (logged s.app.fs).filter old }
    | _ => none
  | .restart cache => do
    let server ← server.step ⟨cfg.lease_seconds⟩ s.app.server (.restart cache)
    let (fs, store) := Store.open s.app.fs
    return { s with app := { server, fs, store } }

/-- No append fails, nobody else acknowledges, and the client polls for something and
acknowledges what it has received. -/
def Polite (s : System) : Action → Prop
  | .request env req => (∀ i, (env.appends i).fault = none) ∧ ∀ through, ¬ Acks cfg req through
  | .poll _ max => 1 ≤ max
  | .ack env through => env.ack_fault = none ∧ ∃ e ∈ s.delivered, e.seq = through
  | _ => True

/-- The store and its client, as they are without a network between them. -/
def System.session (s : System) : lifecycle.Session where
  fs := s.app.fs
  process := s.app.store
  history := s.history
  cursor := s.cursor
  delivered := s.delivered
  retired := s.retired

variable {hmac cfg}

/-- An append of an entry that meets no fault is an append of the store. -/
theorem append_step {sub : Sub} {now : U64} {entry : atom.Entry} {s : lifecycle.Session} {fs : FileSystem}
    {store : Store} {result : AppendResult}
    (hcall : s.process.call s.fs (appendCall sub now entry) none = (fs, store, result)) (hlive : result ≠ .panic) :
    ∃ seq, result = .ok seq ∧ lifecycle.step s (.append (appendCall sub now entry)) =
      some { s with fs, process := store, history := s.history ++ (seq.map (eventOf sub now entry)).toList } := by
  cases result with
  | panic => exact absurd rfl hlive
  | err =>
    obtain ⟨_, h⟩ | ⟨_, hfault, _⟩ | ⟨_, _, _, h⟩ | ⟨_, _, _, _, h⟩ :=
      call_cases s.fs s.process (appendCall sub now entry) none
    · rw [h] at hcall
      cases (Prod.mk.inj (Prod.mk.inj hcall).2).2
    · cases hfault
    · rw [h] at hcall
      cases (Prod.mk.inj (Prod.mk.inj hcall).2).2
    · rw [h] at hcall
      cases (Prod.mk.inj (Prod.mk.inj hcall).2).2
  | ok seq =>
    refine ⟨seq, rfl, ?_⟩
    cases seq with
    | none => simp only [lifecycle.step, hcall, Option.map_none, Option.toList_none, List.append_nil]
    | some seq =>
      simp only [lifecycle.step, hcall, Option.map_some, Option.toList_some]
      rfl

/-- The appends of an answered notification are appends of the store. -/
theorem append_entries_run {sub : Sub} {env : Nat → callback.AppendEnv} (hfaultless : ∀ i, (env i).fault = none)
    {i : Nat} {entries : List atom.Entry} {s : lifecycle.Session} {fs : FileSystem} {store : Store}
    {results : List AppendResult}
    (hloop : callback.append_entries sub env i s.fs s.process entries = (fs, store, results))
    (hlive : .panic ∉ results) :
    ∃ calls : List Call, machine.Run lifecycle.step s (calls.map .append)
      { s with fs, process := store, history := s.history ++ recorded sub env i entries results } := by
  induction entries generalizing i s results with
  | nil =>
    simp only [callback.append_entries, Prod.mk.injEq] at hloop
    obtain ⟨rfl, rfl, rfl⟩ := hloop
    refine ⟨[], machine.run_nil.mpr ?_⟩
    simp only [recorded, List.append_nil]
  | cons entry entries ih =>
    obtain ⟨mid, store_mid, result, rest, hcall, hrest, rfl⟩ := append_entries_cons hloop hlive
    obtain ⟨hresult, hlater⟩ := not_or.mp (List.mem_cons.not.mp hlive)
    rw [hfaultless i] at hcall
    obtain ⟨seq, rfl, hstep⟩ := append_step hcall (Ne.symm hresult)
    obtain ⟨calls, hrun⟩ := ih (s := { s with
      fs := mid, process := store_mid, history := s.history ++ (seq.map (eventOf sub (env i).now entry)).toList })
      hrest hlater
    refine ⟨appendCall sub (env i).now entry :: calls, machine.run_cons.mpr ⟨_, hstep, ?_⟩⟩
    cases seq with
    | none => simpa only [Option.map_none, Option.toList_none, List.append_nil, recorded] using hrun
    | some seq =>
      simpa only [Option.map_some, Option.toList_some, List.append_assoc, List.singleton_append, recorded] using hrun

/-- A request that is not an acknowledgement is a run of appends. -/
theorem request_run {s : System} {env : Env} {req : Request} {app : App} {response : Option Response}
    (hpolite : Polite cfg s (.request env req)) (hhandled : handle hmac cfg env s.app req = some (app, response)) :
    ∃ calls : List Call, machine.Run lifecycle.step s.session (calls.map .append)
      (System.session { s with app, history := s.history ++ arrivals hmac env s.app req }) := by
  have hquiet : ∀ server, arrivals hmac env s.app req = [] → machine.Run lifecycle.step s.session [] (System.session
      { s with app := { s.app with server }, history := s.history ++ arrivals hmac env s.app req }) := by
    intro server hsilent
    rw [hsilent, List.append_nil]
    exact machine.run_nil.mpr rfl
  cases handle_effect hhandled with
  | quiet hsilent => exact ⟨[], hquiet s.app.server hsilent⟩
  | lookup _ _ hsilent _ => exact ⟨[], hquiet _ hsilent⟩
  | submit _ _ _ hsilent _ => exact ⟨[], hquiet _ hsilent⟩
  | ack hacks => exact absurd hacks (hpolite.2 _)
  | @notify _ _ sub _ _ _ _ _ _ hnotify hlived harrived =>
    rw [harrived]
    cases hauth : callback.authenticated hmac sub (callback.notification req) with
    | true =>
      obtain ⟨hloop, hlive⟩ := handle_notify_of_authenticated hauth hnotify hlived
      exact append_entries_run (s := s.session) hpolite.1 hloop hlive
    | false =>
      simp only [callback.handle_notify, hauth, Bool.false_eq_true, if_false, Prod.mk.injEq] at hnotify
      obtain ⟨rfl, rfl, rfl⟩ := hnotify
      have hnone : recorded sub env.appends 0 (notification req).entries [] = [] := by simp [recorded]
      refine ⟨[], machine.run_nil.mpr ?_⟩
      simp only [System.session, hnone, List.append_nil]

/-- Everything that a step can do. -/
inductive Progress (hmac : Bytes → Bytes → Bytes) (cfg : config.Config) (s : System) : Action → System → Prop where
  | request {env : Env} {req : Request} {app : App} {response : Option Response}
    (handled : handle hmac cfg env s.app req = some (app, response)) :
    Progress hmac cfg s (.request env req) { s with app, history := s.history ++ arrivals hmac env s.app req }
  | poll {env : Env} {max : U64} {events : List Event}
    (listed : s.app.store.events_after s.app.fs s.cursor (min max.val 2000) = some events) :
    Progress hmac cfg s (.poll env max)
      { s with cursor := advance Event.seq s.cursor events, delivered := s.delivered ++ events }
  | ack {env : Env} {through : U64} {fs : FileSystem} {store : Store}
    (set : s.app.store.set_ack s.app.fs through env.ack_fault = (fs, store)) :
    Progress hmac cfg s (.ack env through) { s with app := { s.app with fs, store } }
  | registry {a : server.Action} {server : server.Server}
    (stepped : yt_websub.server.step ⟨cfg.lease_seconds⟩ s.app.server a = some server) :
    Progress hmac cfg s (.registry a) { s with app := { s.app with server } }
  | compact {fs : FileSystem} {store : Store} {retired : List Event}
    (compacted : lifecycle.step s.session .compact = some { s.session with fs, process := store, retired }) :
    Progress hmac cfg s .compact { s with app := { s.app with fs, store }, retired }
  | restart {cache : HashMap Text Text} {server : server.Server} {fs : FileSystem} {store : Store}
    (restarted : yt_websub.server.step ⟨cfg.lease_seconds⟩ s.app.server (.restart cache) = some server)
    (opened : Store.open s.app.fs = (fs, store)) :
    Progress hmac cfg s (.restart cache) { s with app := { server, fs, store } }

theorem step_progress {s s' : System} {a : Action} (hstep : step hmac cfg s a = some s') :
    Progress hmac cfg s a s' := by
  cases a with
  | request env req =>
    obtain ⟨⟨app, response⟩, hhandled, heq⟩ := Option.bind_eq_some_iff.mp hstep
    obtain rfl := Option.some.inj heq
    exact .request hhandled
  | poll env max =>
    obtain ⟨⟨app, response⟩, hhandled, hrest⟩ := Option.bind_eq_some_iff.mp hstep
    rw [poll_handled] at hhandled
    obtain ⟨events, hevents, heq⟩ := Option.map_eq_some_iff.mp hhandled
    obtain ⟨rfl, rfl⟩ := Prod.mk.inj heq
    -- The client decodes the events that the store has listed.
    simp only [Option.bind_eq_bind, Option.bind_some, events_of_body] at hrest
    obtain rfl := Option.some.inj hrest
    exact .poll hevents
  | ack env through =>
    obtain ⟨⟨app, response⟩, hhandled, heq⟩ := Option.bind_eq_some_iff.mp hstep
    rw [ack_handled] at hhandled
    obtain ⟨rfl, rfl⟩ := Prod.mk.inj (Option.some.inj hhandled)
    obtain rfl := Option.some.inj heq
    exact .ack rfl
  | registry a =>
    obtain ⟨server, hserver, heq⟩ := Option.bind_eq_some_iff.mp hstep
    obtain rfl := Option.some.inj heq
    exact .registry hserver
  | compact =>
    simp only [step] at hstep
    split at hstep
    · rename_i fs store hcompact
      obtain rfl := Option.some.inj hstep
      apply Progress.compact
      simp only [lifecycle.step, System.session, hcompact]
      rfl
    · cases hstep
  | restart cache =>
    rw [step] at hstep
    obtain ⟨server, hserver, heq⟩ := Option.bind_eq_some_iff.mp hstep
    obtain rfl := Option.some.inj heq
    exact .restart hserver rfl

/-- One step of the daemon and its client is a run of the store and a disciplined client. -/
theorem step_simulated {s s' : System} {a : Action} (hpolite : Polite cfg s a) (hstep : step hmac cfg s a = some s') :
    ∃ moves, machine.Run lifecycle.step s.session moves s'.session ∧
      machine.Along lifecycle.step lifecycle.Disciplined s.session moves := by
  have hone : ∀ move, lifecycle.step s.session move = some s'.session → lifecycle.Disciplined s.session move →
      ∃ moves, machine.Run lifecycle.step s.session moves s'.session ∧
        machine.Along lifecycle.step lifecycle.Disciplined s.session moves :=
    fun move hmove hdisciplined => ⟨[move], machine.run_singleton.mpr hmove, .cons hdisciplined hmove trivial⟩
  cases step_progress hstep with
  | request handled =>
    obtain ⟨calls, hrun⟩ := request_run hpolite handled
    refine ⟨_, hrun, .of_forall (List.forall_mem_map.mpr ?_) _⟩
    intro _ _ _
    trivial
  | @poll env max events listed =>
    apply hone (.poll (min max.val 2000))
    · simp only [lifecycle.step, System.session, listed]
    · exact le_min (Fin.le_def.mp hpolite) (by decide)
  | @ack env through fs store set =>
    obtain ⟨hfault, hreceived⟩ := hpolite
    rw [hfault] at set
    apply hone (.set_ack through)
    · simp only [lifecycle.step, System.session, set]
    · exact hreceived
  | registry => exact ⟨[], machine.run_nil.mpr rfl, trivial⟩
  | compact compacted => exact hone .compact compacted trivial
  | restart restarted opened =>
    apply hone .reopen
    · simp only [lifecycle.step, System.session, opened]
    · trivial

theorem Delivering.step {s s' : System} {a : Action} (h : lifecycle.Delivering s.session) (hpolite : Polite cfg s a)
    (hstep : step hmac cfg s a = some s') : lifecycle.Delivering s'.session := by
  obtain ⟨moves, hrun, hdisciplined⟩ := step_simulated hpolite hstep
  exact hrun.invariant_along lifecycle.Delivering (fun _ _ _ h hd hmove => lifecycle.step_delivering h hd hmove)
    hdisciplined h

theorem delivering_of_run {server : server.Server} {actions : List Action} {s : System}
    (hrun : machine.Run (step hmac cfg) (.init server) actions s)
    (hpolite : machine.Along (step hmac cfg) (Polite cfg) (.init server) actions) :
    lifecycle.Delivering s.session := by
  have hinit : lifecycle.Delivering (System.init server).session := .init
  exact hrun.invariant_along (fun s => lifecycle.Delivering s.session)
    (fun _ _ _ h hpolite hstep => Delivering.step h hpolite hstep) hpolite hinit

/-- Over the wire too, a client that polls from its cursor and acknowledges only what it
received is sent every event recorded once and in order, whatever others request, while
subscriptions come and go, across compactions and restarts. -/
theorem wire_poller_delivered_once {server : server.Server} {actions : List Action} {s : System}
    (hrun : machine.Run (step hmac cfg) (.init server) actions s)
    (hpolite : machine.Along (step hmac cfg) (Polite cfg) (.init server) actions) :
    lifecycle.DeliveredOnce s.session := by
  exact (delivering_of_run hrun hpolite).deliveredOnce

/-- A video of a subscribed channel is deleted. -/
def subscribed_server : server.Server :=
  { server.Server.init 1 none ∅ with reg := Registry.insert .empty callback.notification.subscribed.val }

def quiet_env : Env where
  now := 1
  uptime := "0".toList
  appends _ := ⟨1, none⟩
  ack_fault := none

def deletion_request : Request where
  method := .post
  url := "/yt/cb/00112233445566778899aabbccddeeff".toList
  headers := [⟨"x-hub-signature".toList, "sha1=a1b184c43f6e38f2bd98df337082c384a45ea0fc".toList⟩]
  received := callback.notification.deletionNotice.received

def deletion_polled : List Action := [.request quiet_env deletion_request, .poll quiet_env 5]

theorem deletion_polled_polite : machine.Along (step callback.notification.noticeDigest config.example_config)
    (Polite config.example_config) (.init subscribed_server) deletion_polled := by
  have hroute : route deletion_request.url = .callback "00112233445566778899aabbccddeeff".toList [] := by decide
  refine ⟨⟨fun _ => rfl, ?_⟩, fun _ _ => ⟨(by decide : 1 ≤ (5 : U64)), fun _ _ => trivial⟩⟩
  rintro through ⟨query, hacks, _⟩
  rw [hroute] at hacks
  cases hacks

theorem exists_deletion_polled :
    ∃ s, machine.Run (step callback.notification.noticeDigest config.example_config) (.init subscribed_server)
      deletion_polled s ∧ s.delivered.length = 1 := by
  have hevaluated : ((deletion_polled.foldlM (step callback.notification.noticeDigest config.example_config)
      (.init subscribed_server)).any fun s => decide (s.delivered.length = 1)) = true := by decide +kernel
  obtain ⟨s, hrun, hlength⟩ := machine.exists_run _ hevaluated
  exact ⟨s, hrun, of_decide_eq_true hlength⟩

theorem wire_poller_delivered_once_deletion :
    ∃ s, machine.Run (step callback.notification.noticeDigest config.example_config) (.init subscribed_server)
      deletion_polled s ∧ s.delivered.length = 1 ∧ lifecycle.DeliveredOnce s.session := by
  obtain ⟨s, hrun, hdelivered⟩ := exists_deletion_polled
  exact ⟨s, hrun, hdelivered, wire_poller_delivered_once hrun deletion_polled_polite⟩

/-- A request that posts a signed notification to the callback of a subscription, in
which the event is an entry. -/
structure Announces (hmac : Bytes → Bytes → Bytes) (reg : Registry) (req : Request) (e : Event) : Prop where
  method : req.method = .post
  entry : ∃ token query sub entry, route req.url = .callback token query ∧ reg.by_token token = some sub ∧
    Signed hmac sub (notification req) ∧ entry ∈ (notification req).entries ∧ Carries sub entry e

theorem announces_of_arrival {env : Env} {app : App} {req : Request} {e : Event}
    (he : e ∈ arrivals hmac env app req) : Announces hmac app.server.reg req e := by
  unfold arrivals at he
  split at he
  · rename_i token query hroute
    split at he
    · rename_i sub hsub
      split at he
      · rename_i hpost
        obtain ⟨k, entry, seq, hentry, hresult, rfl⟩ := of_mem_recorded he
        have hcarries : Carries sub entry (eventOf sub (env.appends (0 + k)).now entry seq) := ⟨rfl, rfl, rfl, rfl, rfl⟩
        refine ⟨hpost, token, query, sub, entry, hroute, hsub, ?_, List.mem_of_getElem? hentry, hcarries⟩
        -- Without the signature nothing is appended.
        by_contra hsigned
        rw [← authenticated_iff, Bool.not_eq_true] at hsigned
        simp only [callback.handle_notify, hsigned, Bool.false_eq_true, if_false, List.getElem?_nil,
          reduceCtorEq] at hresult
      · cases he
    · cases he
  · cases he

theorem step_history {s s' : System} {a : Action} (hstep : step hmac cfg s a = some s') :
    s'.history = s.history ∨
      ∃ env req, a = .request env req ∧ s'.history = s.history ++ arrivals hmac env s.app req := by
  cases step_progress hstep with
  | request => exact .inr ⟨_, _, rfl, rfl⟩
  | poll => exact .inl rfl
  | ack => exact .inl rfl
  | registry => exact .inl rfl
  | compact => exact .inl rfl
  | restart => exact .inl rfl

theorem history_announced {server : server.Server} {actions : List Action} {s : System} {e : Event}
    (hrun : machine.Run (step hmac cfg) (.init server) actions s) (he : e ∈ s.history) :
    ∃ before env req after mid, actions = before ++ .request env req :: after ∧
      machine.Run (step hmac cfg) (.init server) before mid ∧ Announces hmac mid.app.server.reg req e := by
  induction actions using List.reverseRecOn generalizing s with
  | nil =>
    obtain rfl := machine.run_nil.mp hrun
    cases he
  | append_singleton actions a ih =>
    obtain ⟨mid, hmid, hlast⟩ := machine.run_append.mp hrun
    have hearlier : e ∈ mid.history → ∃ before env req after mid, actions ++ [a] = before ++ .request env req :: after ∧
        machine.Run (step hmac cfg) (.init server) before mid ∧ Announces hmac mid.app.server.reg req e := by
      intro he
      obtain ⟨before, env, req, after, mid, rfl, hbefore, hannounces⟩ := ih hmid he
      exact ⟨before, env, req, after ++ [a], mid, by simp, hbefore, hannounces⟩
    obtain hsame | ⟨env, req, rfl, hnew⟩ := step_history (machine.run_singleton.mp hlast)
    · exact hearlier (hsame ▸ he)
    · rw [hnew, List.mem_append] at he
      obtain he | he := he
      · exact hearlier he
      · exact ⟨actions, env, req, [], mid, rfl, hmid, announces_of_arrival he⟩

/-- What the client decodes was announced by a signed notification, under the
registry's subscription at that time. -/
theorem wire_events_announced {server : server.Server} {actions : List Action} {s : System}
    (hrun : machine.Run (step hmac cfg) (.init server) actions s)
    (hpolite : machine.Along (step hmac cfg) (Polite cfg) (.init server) actions) :
    ∀ e ∈ s.delivered, ∃ before env req after mid, actions = before ++ .request env req :: after ∧
      machine.Run (step hmac cfg) (.init server) before mid ∧ Announces hmac mid.app.server.reg req e := by
  intro e he
  have hdelivering : lifecycle.Delivering s.session := delivering_of_run hrun hpolite
  exact history_announced hrun (hdelivering.genuine e he)

theorem wire_events_announced_deletion :
    ∃ s, machine.Run (step callback.notification.noticeDigest config.example_config) (.init subscribed_server)
      deletion_polled s ∧ s.delivered ≠ [] ∧ ∀ e ∈ s.delivered, ∃ before env req after mid,
        deletion_polled = before ++ .request env req :: after ∧
        machine.Run (step callback.notification.noticeDigest config.example_config) (.init subscribed_server) before
          mid ∧ Announces callback.notification.noticeDigest mid.app.server.reg req e := by
  obtain ⟨s, hrun, hdelivered⟩ := exists_deletion_polled
  exact ⟨s, hrun, List.ne_nil_of_length_pos (hdelivered ▸ Nat.one_pos),
    wire_events_announced hrun deletion_polled_polite⟩

end yt_websub.http.delivery
