import YtWebsub.Atom
import YtWebsub.Sig
import YtWebsub.Store.Operations
import YtWebsub.Subs

open rust rust.utf8 rust.text rust.num rust.fs
open yt_websub.util yt_websub.store yt_websub.subs

namespace yt_websub.callback

def MAX_BODY : Nat := 4 * 1024 * 1024

/-- The parts of a POST that `handle_notify` reads. -/
structure Request where
  headers : List (Text × Text)
  /-- The bytes that arrive before the end of the body, or before a read error. -/
  received : Bytes

def Request.signature (req : Request) : Option Text :=
  (req.headers.find? fun h => eq_ignore_ascii_case h.1 "X-Hub-Signature".toList).map Prod.snd

def Request.body (req : Request) : Bytes :=
  req.received.take MAX_BODY

/-- The signature check of `handle_notify`. -/
def authenticated (hmac : Bytes → Bytes → Bytes) (sub : Sub) (req : Request) : Bool :=
  match req.signature with
  | some header => sig.verify hmac (encode sub.secret) req.body header
  | none => false

/-- What one append meets: the clock, and the I/O operation that fails, if any. -/
structure AppendEnv where
  now : U64
  fault : Option AppendFault

/-- The loop of `handle_notify`: an error of one append is logged and the loop goes on.
The `i`-th entry meets `env i`. -/
def append_entries (sub : Sub) (env : Nat → AppendEnv) :
    Nat → FileSystem → Store → List atom.Entry → FileSystem × Store × List AppendResult
  | _, fs, store, [] => (fs, store, [])
  | i, fs, store, e :: es =>
    match store.append fs (env i).now (env i).fault e.kind sub.channel_id e.video_id e.ts e.title with
    | (fs, store, .panic) => (fs, store, [.panic])
    | (fs, store, result) =>
      let (fs, store, results) := append_entries sub env (i + 1) fs store es
      (fs, store, result :: results)

/-- The entries of an authenticated body. -/
def Request.entries (req : Request) : List atom.Entry :=
  atom.parse (lossy req.body)

/-- The status sent, if the process lives to send one, and what each append returned. -/
structure Answer where
  status : Option Nat
  results : List AppendResult

def handle_notify (hmac : Bytes → Bytes → Bytes) (fs : FileSystem) (store : Store) (sub : Sub) (req : Request)
    (env : Nat → AppendEnv) : FileSystem × Store × Answer :=
  if authenticated hmac sub req then
    let (fs, store, results) := append_entries sub env 0 fs store req.entries
    (fs, store, { status := if .panic ∈ results then none else some 204, results })
  else (fs, store, { status := some 204, results := [] })

/-- The checks that `handle_verify` makes before it looks at the mode. -/
def verify_matches (sub : Sub) (query : Text) : Bool :=
  let topic := (query_get query "hub.topic".toList).getD []
  let challenge := (query_get query "hub.challenge".toList).getD []
  let vtoken := (query_get query "hub.verify_token".toList).getD []
  topic = sub.topic && challenge ≠ [] && (vtoken = [] || vtoken = sub.token)

/-- The lease granted: never longer than the configured one. -/
def granted_lease (lease_seconds : U64) (query : Text) : U64 :=
  let requested := ((query_get query "hub.lease_seconds".toList).bind (parse 64)).getD lease_seconds
  min requested (max lease_seconds 1)

/-- A subscription whose subscribe verification arrives at time `now`. -/
def verified (s : Sub) (lease now : U64) : Sub :=
  { s with
    state := active, lease_seconds := lease, expires_at := saturating_add now lease, fail_count := 0
    next_attempt_at := 0 }

/-- What a verification request does: the channel to activate, if any, and the challenge
echoed; `none` stands for a 404. -/
def handle_verify (sub : Sub) (query : Text) : Option Text × Option Text :=
  let mode := (query_get query "hub.mode".toList).getD []
  let challenge := (query_get query "hub.challenge".toList).getD []
  if !verify_matches sub query then (none, none)
  else if mode = "subscribe".toList then (some sub.channel_id, some challenge)
  else if mode = "unsubscribe".toList then (none, some challenge)
  else (none, none)

/-- The challenge to echo for a removed subscription, given the topic on record for its token. -/
def finish_unsubscribe (expected : Option Text) (query : Text) : Option Text :=
  let mode := (query_get query "hub.mode".toList).getD []
  let topic := (query_get query "hub.topic".toList).getD []
  let challenge := (query_get query "hub.challenge".toList).getD []
  match expected with
  | some t => if mode = "unsubscribe".toList ∧ t = topic ∧ challenge ≠ [] then some challenge else none
  | none => none

end yt_websub.callback
