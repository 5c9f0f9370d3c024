import YtWebsub.Api
import YtWebsub.Base.Machine
import YtWebsub.Callback
import YtWebsub.Renew

open rust rust.utf8 rust.text rust.num rust.map
open yt_websub.subs yt_websub.renew yt_websub.api yt_websub.callback

namespace yt_websub.server

/-- The parts of the configuration that the subscriptions depend on. -/
structure Config where
  lease_seconds : U64

/-- Who holds the reconcile lock. -/
inductive Holder where
  | renewal
  | api (i : Nat)
deriving DecidableEq

/-- Where the reconcile that holds the lock is. -/
inductive Stage where
  | reading
  | diffing (desired : List Text) (complete : Bool)
  /-- Between two requests to the hub. -/
  | pausing (to_add : List Text) (to_remove : List Sub)
  /-- The sub is registered and its request is on its way. -/
  | subscribing (s : Sub) (to_add : List Text) (to_remove : List Sub)
  | unsubscribing (s : Sub) (to_remove : List Sub)
deriving DecidableEq

/-- Where the renewal thread is. `last_sig` is the local variable of `run`. -/
inductive Renewal where
  | starting
  | startup
  | sampling
  | sleeping (last_sig : U64 × Nat)
  /-- The file has changed; waiting for the reconcile lock. -/
  | blocked (last_sig : U64 × Nat)
  | reconciling (last_sig : U64 × Nat)
  /-- About to call `renew_due`. -/
  | waking (last_sig : U64 × Nat)
  | expiring (last_sig : U64 × Nat) (now : U64)
  | selecting (last_sig : U64 × Nat) (now : U64)
  | renewing (last_sig : U64 × Nat) (candidates : List Sub)
  | sending (last_sig : U64 × Nat) (s : Sub) (candidates : List Sub)
deriving DecidableEq

/-- A POST of the channel list. -/
inductive Post where
  | rendered (content : Bytes)
  | written
  | reconciling
  | answered (status : Nat)
deriving DecidableEq

/-- A GET of a callback path. -/
inductive Get where
  | found (sub : Sub) (query : Text)
  | unknown (token query : Text)
  | confirming (token : Text) (now : U64) (challenge : Text)
  /-- The challenge was echoed, or a 404 sent. -/
  | answered (challenge : Option Text)
deriving DecidableEq

/-- What a reconcile found: the contents of the channels file, if it could be read, the
cached resolutions, and how the network answered. -/
structure Read where
  content : Option Bytes
  cache : HashMap Text Text
  fetch : Nat → Text → Option Bytes

/-- How far a tick of the renewal loop has come that began after the last write of the
channels file. -/
inductive Tick where
  | none
  | started
  | completed
deriving DecidableEq

structure Server where
  clock : U64
  reg : Registry
  /-- The contents of `subs.tsv`. -/
  disk : Option Bytes
  file : Option ChannelsFile
  resolve_cache : HashMap Text Text
  reconcile_lock : Option (Holder × Stage)
  renewal : Renewal
  posts : List Post
  gets : List Get
  /-- Every token drawn so far. -/
  tokens : List Text
  /-- Time and lease of the latest subscribe verification written under each token. -/
  grants : Text → Option (U64 × U64)
  /-- What the most recent reconcile of this process found. -/
  last_read : Option Read
  tick : Tick

def Server.init (clock : U64) (file : Option ChannelsFile) (cache : HashMap Text Text) : Server where
  clock := clock
  reg := .empty
  disk := none
  file := file
  resolve_cache := cache
  reconcile_lock := none
  renewal := .starting
  posts := []
  gets := []
  tokens := []
  grants _ := none
  last_read := none
  tick := .none

inductive Action where
  | advance (clock : U64)
  /-- The operator rewrites the channels file. -/
  | edit (file : ChannelsFile)
  | post_render (received : Bytes)
  | post_write (i : Nat) (mtime : U64)
  /-- `write_atomic` fails before the rename. -/
  | post_fail (i : Nat)
  | post_try_lock (i : Nat)
  | renewal_lock
  | reconcile_read (readable : Bool) (fetch : Nat → Text → Option Bytes)
  | reconcile_diff (removes : List Sub)
  | reconcile_insert (token secret : Bytes) (now : U64)
  | reconcile_answer (res : Except Text (Fin (2 ^ 16))) (now drawn : U64) (order : List Sub)
  | reconcile_unsubscribe
  | reconcile_remove
  | reconcile_finish (order : List Sub)
  | renewal_sample
  | renewal_wake
  | renewal_expire (order : List Sub)
  | renewal_select (order : List Sub)
  | renewal_send
  | renewal_answer (res : Except Text (Fin (2 ^ 16))) (now drawn : U64) (order : List Sub)
  | renewal_sleep
  | get_lookup (token query : Text)
  | get_verify (i : Nat) (order : List Sub)
  | get_unsub_topic (i : Nat) (now : U64)
  | get_forget (i : Nat)
  /-- The process ends and is started again; `cache` is what it loads from `resolve.cache`. -/
  | restart (cache : HashMap Text Text)

/-- A changed registry is saved at once, in whatever order `save` meets the subs. -/
def Server.save (s : Server) (reg : Registry) (order : List Sub) : Option Server :=
  (reg.save order).map fun bytes => { s with reg, disk := some bytes }

/-- The critical section of `merge_attempt`. -/
def Server.merge (s : Server) (sub : Sub) (order : List Sub) : Option Server :=
  match merge_attempt s.reg sub with
  | none => some s
  | some reg => s.save reg order

/-- The lock is released; its holder goes on. -/
def Server.release (s : Server) : Holder → Server
  | .renewal =>
    { s with
      reconcile_lock := none
      renewal :=
        match s.renewal with
        | .startup => .sampling
        | .reconciling last_sig => .waking last_sig
        | renewal => renewal }
  | .api i => { s with reconcile_lock := none, posts := s.posts.set i (.answered 200) }

def Server.setStage (s : Server) (holder : Holder) (stage : Stage) : Server :=
  { s with reconcile_lock := some (holder, stage) }

/-- The channels file has new contents. -/
def Server.write (s : Server) (file : ChannelsFile) : Server :=
  { s with file := some file, tick := .none }

def step (cfg : Config) (s : Server) : Action → Option Server
  | .advance clock => if s.clock ≤ clock then some { s with clock } else none
  | .edit file => some (s.write file)
  | .post_render received =>
    let existing := s.file.map ChannelsFile.content
    let content := encode (render_channels_file existing (channels_of (read_body received)))
    some { s with posts := s.posts ++ [.rendered content] }
  | .post_write i mtime =>
    match s.posts[i]? with
    | some (.rendered content) => some { s.write { content, mtime } with posts := s.posts.set i .written }
    | _ => none
  | .post_fail i =>
    match s.posts[i]? with
    | some (.rendered _) => some { s with posts := s.posts.set i (.answered 500) }
    | _ => none
  | .post_try_lock i =>
    match s.posts[i]?, s.reconcile_lock with
    | some .written, none => some { s.setStage (.api i) .reading with posts := s.posts.set i .reconciling }
    | some .written, some _ => some { s with posts := s.posts.set i (.answered 202) }
    | _, _ => none
  | .renewal_lock =>
    match s.renewal, s.reconcile_lock with
    | .starting, none => some { s.setStage .renewal .reading with renewal := .startup }
    | .blocked last_sig, none => some { s.setStage .renewal .reading with renewal := .reconciling last_sig }
    | _, _ => none
  | .reconcile_read readable fetch =>
    match s.reconcile_lock with
    | some (holder, .reading) =>
      let content := if readable then s.file.map ChannelsFile.content else none
      let (desired, complete, cache) := desired_set content fetch s.resolve_cache
      some
        { s.setStage holder (.diffing desired complete) with
          resolve_cache := cache
          last_read := some { content, cache := s.resolve_cache, fetch } }
    | _ => none
  | .reconcile_diff removes =>
    match s.reconcile_lock with
    | some (holder, .diffing desired complete) =>
      if removes.Perm (to_remove s.reg desired complete) then
        some (s.setStage holder (.pausing (to_add s.reg desired) removes))
      else none
    | _ => none
  | .reconcile_insert token secret now =>
    match s.reconcile_lock with
    | some (holder, .pausing (cid :: to_add) to_remove) =>
      let sub := new_sub cid token secret now
      -- Tokens are drawn from 128 bits and never repeat.
      if sub.token ∉ s.tokens ∧ now ≤ s.clock then
        some
          { s.setStage holder (.subscribing sub to_add to_remove) with
            reg := s.reg.insert sub
            tokens := s.tokens ++ [sub.token] }
      else none
    | _ => none
  | .reconcile_answer res now drawn order =>
    match s.reconcile_lock with
    | some (holder, .subscribing sub to_add to_remove) =>
      match verdict res with
      | none => some (s.setStage holder (.pausing to_add to_remove))
      | some why =>
        if now ≤ s.clock then do
          let sub ← refuse_new sub why now drawn
          (s.setStage holder (.pausing to_add to_remove)).merge sub order
        else none
    | _ => none
  | .reconcile_unsubscribe =>
    match s.reconcile_lock with
    | some (holder, .pausing [] (sub :: to_remove)) => some (s.setStage holder (.unsubscribing sub to_remove))
    | _ => none
  | .reconcile_remove =>
    match s.reconcile_lock with
    | some (holder, .unsubscribing sub to_remove) =>
      (s.reg.remove sub.channel_id s.clock).map fun reg =>
        { s.setStage holder (.pausing [] to_remove) with reg }
    | _ => none
  | .reconcile_finish order =>
    match s.reconcile_lock with
    | some (holder, .pausing [] []) => (s.release holder).save s.reg order
    | _ => none
  | .renewal_sample =>
    let sig := channels_sig s.file
    match s.renewal with
    | .sampling => some { s with renewal := .sleeping sig }
    | .sleeping last_sig =>
      some
        { s with
          renewal := if sig ≠ last_sig then .blocked sig else .waking last_sig
          tick := if s.tick = .none then .started else s.tick }
    | _ => none
  | .renewal_wake =>
    match s.renewal with
    | .waking last_sig => some { s with renewal := .expiring last_sig s.clock }
    | _ => none
  | .renewal_expire order =>
    match s.renewal with
    | .expiring last_sig now =>
      match expire_lapsed s.reg now with
      | none => some { s with renewal := .selecting last_sig now }
      | some reg => { s with renewal := .selecting last_sig now }.save reg order
    | _ => none
  | .renewal_select order =>
    match s.renewal with
    | .selecting last_sig now =>
      if order.Perm (values s.reg.subs) then
        (candidates now order).map fun chosen => { s with renewal := .renewing last_sig chosen }
      else none
    | _ => none
  | .renewal_send =>
    match s.renewal with
    | .renewing last_sig (sub :: candidates) =>
      some { s with renewal := .sending last_sig { sub with last_subscribe_at := s.clock } candidates }
    | _ => none
  | .renewal_answer res now drawn order =>
    match s.renewal with
    | .sending last_sig sub candidates =>
      if sub.last_subscribe_at ≤ now ∧ now ≤ s.clock then do
        let sub ← attempted sub (verdict res) now drawn
        { s with renewal := .renewing last_sig candidates }.merge sub order
      else none
    | _ => none
  | .renewal_sleep =>
    match s.renewal with
    | .renewing last_sig [] =>
      some
        { s with
          renewal := .sleeping last_sig
          tick := if s.tick = .started then .completed else s.tick }
    | _ => none
  | .get_lookup token query =>
    match s.reg.by_token token with
    | some sub => some { s with gets := s.gets ++ [.found sub query] }
    | none => some { s with gets := s.gets ++ [.unknown token query] }
  | .get_verify i order =>
    match s.gets[i]? with
    | some (.found sub query) =>
      let (target, challenge) := handle_verify sub query
      let s := { s with gets := s.gets.set i (.answered challenge) }
      match target.bind fun cid => s.reg.subs.lookup cid with
      | none => some s
      | some cur =>
        let lease := granted_lease cfg.lease_seconds query
        { s with grants := Function.update s.grants cur.token (some (s.clock, lease)) }.save
          (s.reg.update (verified cur lease s.clock)) order
    | _ => none
  | .get_unsub_topic i now =>
    match s.gets[i]? with
    | some (.unknown token query) =>
      if now ≤ s.clock then
        match finish_unsubscribe (s.reg.unsub_topic token now) query with
        | some challenge => some { s with gets := s.gets.set i (.confirming token now challenge) }
        | none => some { s with gets := s.gets.set i (.answered none) }
      else none
    | _ => none
  | .get_forget i =>
    match s.gets[i]? with
    | some (.confirming token now challenge) =>
      some { s with reg := s.reg.forget_unsub token now, gets := s.gets.set i (.answered (some challenge)) }
    | _ => none
  | .restart cache =>
    some
      { s with
        reg := .load s.disk
        resolve_cache := cache
        reconcile_lock := none
        renewal := .starting
        posts := []
        gets := []
        last_read := none
        tick := .none }

end yt_websub.server
