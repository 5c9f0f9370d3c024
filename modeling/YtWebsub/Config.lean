import YtWebsub.Base.HashMap
import YtWebsub.Base.Num
import YtWebsub.Base.Search

open rust rust.utf8 rust.text rust.num rust.map

namespace yt_websub.config

structure Config where
  callback_base : Text
  listen : Text
  tls_cert : Text
  tls_key : Text
  bearer_token : Text
  channels_file : Text
  storage_dir : Text
  lease_seconds : U64
  hub_url : Text
  accept_threads : U64
deriving DecidableEq

/-- Removes one layer of matching quotes. -/
def strip_quotes (v : Text) : Text :=
  let quoted (q : Text) := q.isPrefixOf v && q.isSuffixOf v
  if 2 ≤ (encode v).length ∧ (quoted "\"".toList || quoted "'".toList) then v.tail.dropLast else v

/-- The loop body of `parse_env_file`; a blank line, a comment or a line without `=` is skipped. -/
def parse_env_line (line : Text) : Option (Text × Text) :=
  let line := trim line
  if line = [] || ['#'].isPrefixOf line then none
  else (split_once ['='] line).map fun (k, v) => (trim k, strip_quotes (trim v))

def parse_env_file (content : Text) : List (Text × Text) :=
  (strLines content).filterMap parse_env_line

def insert_all (m : HashMap Text Text) (pairs : List (Text × Text)) : HashMap Text Text :=
  pairs.foldl (fun m pair => m.insert pair.1 pair.2) m

/-- The map that `load` builds: `file` is what reading the configuration file gave, if it
could be read, and `vars` is the environment, which wins. -/
def settings (file : Option Bytes) (vars : List (Text × Text)) : HashMap Text Text :=
  insert_all (insert_all ∅ ((file.bind decode).elim [] parse_env_file))
    (vars.filter fun var => "YTWEBSUB_".toList.isPrefixOf var.1)

def req (map : HashMap Text Text) (k : Text) : Except Text Text :=
  match (map.lookup k).filter (· ≠ []) with
  | some v => .ok v
  | none => .error ("missing required config: ".toList ++ k)

def weak_token : Text :=
  ("YTWEBSUB_BEARER_TOKEN looks unset or too weak; set a random token of at " ++
    "least 32 characters (e.g. `openssl rand -hex 32`)").toList

/-- `str::trim_end_matches`. -/
def trim_slashes (s : Text) : Text :=
  s.rdropWhile (· = '/')

def from_map (map : HashMap Text Text) : Except Text Config := do
  let callback_base ← req map "YTWEBSUB_CALLBACK_BASE".toList
  let callback_base := trim_slashes callback_base
  let bearer_token ← req map "YTWEBSUB_BEARER_TOKEN".toList
  if "CHANGE_ME".toList.isPrefixOf bearer_token || (encode bearer_token).length < 32 then throw weak_token
  let tls_cert ← req map "YTWEBSUB_TLS_CERT".toList
  let tls_key ← req map "YTWEBSUB_TLS_KEY".toList
  let storage_dir := (map.lookup "YTWEBSUB_STORAGE_DIR".toList).getD "/var/lib/yt-websub".toList
  let channels_file :=
    (map.lookup "YTWEBSUB_CHANNELS_FILE".toList).getD (storage_dir ++ "/channels.txt".toList)
  let listen := (map.lookup "YTWEBSUB_LISTEN".toList).getD "0.0.0.0:443".toList
  let lease_seconds := ((map.lookup "YTWEBSUB_LEASE_SECONDS".toList).bind (parse 64)).getD 432000
  let hub_url :=
    (map.lookup "YTWEBSUB_HUB_URL".toList).getD "https://pubsubhubbub.appspot.com/subscribe".toList
  let accept_threads :=
    (((map.lookup "YTWEBSUB_ACCEPT_THREADS".toList).bind (parse 64)).filter (1 ≤ ·)).getD 4
  return { callback_base, listen, tls_cert, tls_key, bearer_token, channels_file, storage_dir, lease_seconds, hub_url
           accept_threads }

def load (file : Option Bytes) (vars : List (Text × Text)) : Except Text Config :=
  from_map (settings file vars)

end yt_websub.config
