import YtWebsub.Base.Search
import YtWebsub.Util

open rust rust.utf8 rust.text
open yt_websub.util

namespace yt_websub.sig

/-- `hmac` is HMAC-SHA1 of a key and a message; it takes keys of any length. -/
def verify (hmac : Bytes → Bytes → Bytes) (secret body : Bytes) (header : Text) : Bool :=
  match strip_start "sha1=".toList (trim header) with
  | none => false
  | some hex =>
    match hex_decode (trim hex) with
    | none => false
    | some expected => hmac secret body = expected

end yt_websub.sig
