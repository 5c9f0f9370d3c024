import YtWebsub.Base.Num
import YtWebsub.Base.Search

open rust rust.utf8 rust.text rust.num

namespace tiny_http

/-- `AsciiString::from_ascii`. -/
def from_ascii (bs : Bytes) : Option Text :=
  if bs.all (· < 0x80) then some (bs.map fun b => Char.ofNat b.toNat) else none

inductive Method where
  | get
  | head
  | post
  | put
  | delete
  | connect
  | options
  | trace
  | patch
  | non_standard (s : Text)
deriving DecidableEq

def Method.as_str : Method → Text
  | .get => "GET".toList
  | .head => "HEAD".toList
  | .post => "POST".toList
  | .put => "PUT".toList
  | .delete => "DELETE".toList
  | .connect => "CONNECT".toList
  | .options => "OPTIONS".toList
  | .trace => "TRACE".toList
  | .patch => "PATCH".toList
  | .non_standard s => s

def Method.standard : List Method :=
  [.get, .head, .post, .put, .delete, .connect, .options, .trace, .patch]

/-- `Method::from_str` on ASCII text. -/
def Method.from_str (s : Text) : Method :=
  (Method.standard.find? fun method => method.as_str = s).getD (.non_standard s)

structure HTTPVersion where
  major : Nat
  minor : Nat
deriving DecidableEq

def HTTPVersion.gt (v w : HTTPVersion) : Bool :=
  w.major < v.major || (w.major = v.major && w.minor < v.minor)

structure Header where
  field : Text
  value : Text
deriving DecidableEq

/-- `HeaderField::equiv`. -/
def Header.equiv (h : Header) (field : Text) : Bool :=
  eq_ignore_ascii_case field h.field

/-- `Header::from_str` on ASCII text. -/
def Header.from_str (input : Text) : Option Header := do
  let (field, value) ← split_once [':'] input
  if field.any isWhitespace then none else some ⟨field, trim value⟩

/-- The value of the first header of that name. -/
def find_header (headers : List Header) (field : Text) : Option Text :=
  (headers.find? fun h => h.equiv field).map Header.value

namespace client

/-- What goes wrong between the socket and a request. -/
inductive IoError where
  /-- The socket times out, fails or is at its end. -/
  | timed_out
  | failed
  | unexpected_eof
  | not_ascii
  | line_too_long
  | too_many_headers
  /-- The end comes before all of a body that is read at once. -/
  | body_cut
deriving DecidableEq

inductive ReadError where
  | wrong_request_line
  | wrong_header (version : HTTPVersion)
  | expectation_failed (version : HTTPVersion)
  | io (e : IoError)
deriving DecidableEq

/-- What follows the last byte that arrives. -/
inductive Ending where
  | eof
  | timed_out
  | failed
deriving DecidableEq

def Ending.error (ending : Ending) (at_eof : IoError) : IoError :=
  match ending with
  | .eof => at_eof
  | .timed_out => .timed_out
  | .failed => .failed

def MAX_LINE_BYTES : Nat := 8 * 1024

def MAX_HEADERS : Nat := 128

/-- The loop of `read_next_line`. -/
def read_line (ending : Ending) : Bytes → Bool → Bytes → Except ReadError (Text × Bytes)
  | _, _, [] => .error (.io (ending.error .unexpected_eof))
  | buf, prev_byte_was_cr, byte :: rest =>
    if byte = 10 ∧ prev_byte_was_cr = true then
      match from_ascii buf.dropLast with
      | some line => .ok (line, rest)
      | none => .error (.io .not_ascii)
    else if (buf ++ [byte]).length > MAX_LINE_BYTES then .error (.io .line_too_long)
    else read_line ending (buf ++ [byte]) (byte = 13) rest

def read_next_line (ending : Ending) (input : Bytes) : Except ReadError (Text × Bytes) :=
  read_line ending [] false input

def parse_http_version (version : Text) : Option HTTPVersion :=
  if version = "HTTP/0.9".toList then some ⟨0, 9⟩
  else if version = "HTTP/1.0".toList then some ⟨1, 0⟩
  else if version = "HTTP/1.1".toList then some ⟨1, 1⟩
  else if version = "HTTP/2.0".toList then some ⟨2, 0⟩
  else if version = "HTTP/3.0".toList then some ⟨3, 0⟩
  else none

/-- Anything after the version is ignored. -/
def parse_request_line (line : Text) : Except ReadError (Method × Text × HTTPVersion) :=
  match line.splitOn ' ' with
  | method :: path :: version :: _ =>
    match parse_http_version version with
    | some version => .ok (Method.from_str method, path, version)
    | none => .error .wrong_request_line
  | _ => .error .wrong_request_line

/-- The header loop of `read`, with room for `room` more headers. -/
def read_headers (ending : Ending) (version : HTTPVersion) :
    Nat → List Header → Bytes → Except ReadError (List Header × Bytes)
  | room, headers, input => do
    let (line, rest) ← read_next_line ending input
    if line = [] then return (headers, rest)
    match room with
    | 0 => throw (.io .too_many_headers)
    | room + 1 =>
      match Header.from_str (trim line) with
      | some header => read_headers ending version room (headers ++ [header]) rest
      | none => throw (.wrong_header version)

/-- The request line and the headers. -/
structure Head where
  method : Method
  path : Text
  version : HTTPVersion
  headers : List Header
deriving DecidableEq

def read_head (ending : Ending) (input : Bytes) : Except ReadError (Head × Bytes) := do
  let (line, input) ← read_next_line ending input
  let (method, path, version) ← parse_request_line (trim line)
  let (headers, input) ← read_headers ending version MAX_HEADERS [] input
  return (⟨method, path, version, headers⟩, input)

/-- Where the body of a request comes from. -/
inductive Body where
  /-- All that follows on the connection. -/
  | upgraded
  | empty
  /-- Read already, for a body of at most 1024 bytes. -/
  | buffered (data : Bytes)
  /-- An `EqualReader` on the connection. -/
  | exact (size : Nat)
  | chunked
deriving DecidableEq

/-- `contains` of the lower-cased value. -/
def mentions (value pattern : Text) : Bool :=
  (find pattern (value.map toAsciiLower)).isSome

def content_length (headers : List Header) : Option U64 :=
  if (find_header headers "Transfer-Encoding".toList).isSome then none
  else (find_header headers "Content-Length".toList).bind (parse 64)

/-- Whether the client waits for a `100 Continue`; `none` for what is not understood. -/
def expects_continue (headers : List Header) : Option Bool :=
  match find_header headers "Expect".toList with
  | none => some false
  | some v => if eq_ignore_ascii_case v "100-continue".toList then some true else none

def connection_upgrade (headers : List Header) : Bool :=
  (find_header headers "Connection".toList).any fun v => mentions v "upgrade".toList

/-- The part of `new_request` that sets up the body. -/
def new_request (ending : Ending) (head : Head) (input : Bytes) : Except ReadError (Body × Bytes) :=
  match expects_continue head.headers with
  | none => .error (.expectation_failed head.version)
  | some expects =>
    if connection_upgrade head.headers then .ok (.upgraded, input)
    else
      match content_length head.headers with
      | some length =>
        if length.val = 0 then .ok (.empty, input)
        else if length.val ≤ 1024 ∧ expects = false then
          if input.length < length.val then .error (.io (ending.error .body_cut))
          else .ok (.buffered (input.take length.val), input.drop length.val)
        else .ok (.exact length.val, input)
      | none =>
        if (find_header head.headers "Transfer-Encoding".toList).isSome then .ok (.chunked, input)
        else .ok (.empty, input)

/-- What an unread body is drained of at most. -/
def MAX_DRAIN : Nat := 256 * 1024

/-- The decoder of chunked bodies: what a handler that asks for so many bytes is given, and
what is left on the connection when it is dropped. -/
abbrev Chunked := Nat → Bytes → Bytes × Bytes

/-- A handler asks for `asked` bytes of the body and drops the request: what it was given,
and what is left on the connection. -/
def Body.consume (chunked : Chunked) (asked : Nat) (input : Bytes) : Body → Bytes × Bytes
  | .upgraded => (input.take asked, input.drop asked)
  | .empty => ([], input)
  | .buffered data => (data.take asked, input)
  | .exact size =>
    let given := min asked size
    (input.take given, input.drop (given + min (size - given) MAX_DRAIN))
  | .chunked => chunked asked input

/-- What `next` makes of the input. -/
inductive Next where
  | request (head : Head) (body : Body) (rest : Bytes)
  /-- An error response of that status is sent, and no request follows. -/
  | rejected (status : Nat)
  /-- The version is above 1.1. -/
  | unsupported (head : Head)
  | closed
deriving DecidableEq

def Next.of_error : ReadError → Next
  | .wrong_request_line => .rejected 400
  | .wrong_header _ => .rejected 400
  | .io .timed_out => .rejected 408
  | .expectation_failed _ => .rejected 417
  | .io _ => .closed

/-- Whether the request says that it is the last one. -/
def is_last (head : Head) : Bool :=
  match find_header head.headers "Connection".toList with
  | some value =>
    mentions value "close".toList || mentions value "upgrade".toList ||
      (!mentions value "keep-alive".toList && head.version = ⟨1, 0⟩)
  | none => head.version = ⟨1, 0⟩

/-- `ClientConnection::next`, on what the previous requests have left of the input. -/
def next (ending : Ending) (no_more_requests : Bool) (input : Bytes) : Next :=
  if no_more_requests then .closed
  else
    match read_head ending input with
    | .error e => .of_error e
    | .ok (head, input) =>
      match new_request ending head input with
      | .error e => .of_error e
      | .ok (body, rest) => if head.version.gt ⟨1, 1⟩ then .unsupported head else .request head body rest

/-- A request as its handler saw it. -/
structure Served where
  head : Head
  body : Bytes
deriving DecidableEq

/-- The requests of a connection, handled one after the other by handlers that ask for so
many bytes of their bodies, and the input after them. -/
def serve (chunked : Chunked) (ending : Ending) : Bool → List Nat → Bytes → List Served × Bytes
  | _, [], input => ([], input)
  | no_more_requests, asked :: later, input =>
    match next ending no_more_requests input with
    | .request head body rest =>
      let (given, rest) := body.consume chunked asked rest
      let (served, rest) := serve chunked ending (is_last head) later rest
      (⟨head, given⟩ :: served, rest)
    | .rejected _ | .unsupported _ | .closed => ([], input)

end client

end tiny_http
