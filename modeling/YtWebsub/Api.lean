import YtWebsub.Subs

open rust rust.utf8 rust.text rust.num rust.map
open yt_websub.subs

namespace yt_websub.api

def MAX_BODY : Nat := 1024 * 1024

/-- `received` is what arrives before the end of the body, or before a read error. -/
def read_body (received : Bytes) : Text :=
  lossy (received.take MAX_BODY)

def extract_u64 (text key : Text) : Option U64 := do
  let marker := '"' :: key ++ ['"']
  let pos ← find marker text
  let rest ← strip_start [':'] (trimStart (text.drop (pos + marker.length)))
  parse 64 ((trimStart rest).takeWhile Char.isDigit)

/-- The character that a backslash and this one stand for. -/
def unescape : Char → Char
  | 'n' => '\n'
  | 't' => '\t'
  | 'r' => '\r'
  | other => other

/-- A literal that is empty after trimming is left out. -/
def push_literal (s : Text) (out : List Text) : List Text :=
  if trim s = [] then out else trim s :: out

/-- The scanner of `extract_string_array`; `current` is the literal being read, if any.
A literal without its closing quote ends where the text does. -/
def scan_literals : Option Text → Text → List Text
  | none, [] => []
  | none, '"' :: cs => scan_literals (some []) cs
  | none, _ :: cs => scan_literals none cs
  | some s, [] => push_literal s []
  | some s, '\\' :: c :: cs => scan_literals (some (s ++ [unescape c])) cs
  | some s, ['\\'] => push_literal s []
  | some s, '"' :: cs => push_literal s (scan_literals none cs)
  | some s, c :: cs => scan_literals (some (s ++ [c])) cs

/-- The array ends at the first `]`, or where the text does. -/
def extract_string_array (text : Text) : List Text :=
  match find ['['] text with
  | none => []
  | some start =>
    let rest := text.drop (start + 1)
    scan_literals none (rest.take ((find [']'] rest).getD rest.length))

def is_safe_channel_entry (s : Text) : Bool :=
  s ≠ [] && (encode s).all fun b => 0x20 ≤ b && b ≠ 0x7f

/-- The entries that a POST of the body asks for. -/
def channels_of (body : Text) : List Text :=
  (extract_string_array body).filter is_safe_channel_entry

/-- A blank line, or one that an operator wrote as documentation. -/
def is_comment (line : Text) : Bool :=
  trim line = [] || ['#'].isPrefixOf (trim line)

/-- The comment and blank lines of the file, when it can be read, then the channels. -/
def render_channels_file (existing : Option Bytes) (channels : List Text) : Text :=
  let comments := ((existing.bind decode).elim [] strLines).filter is_comment
  (comments ++ channels).flatMap fun line => line ++ ['\n']

/-- The counts of `/api/health`. -/
structure Health where
  subs_active : Nat
  subs_expired : Nat
  subs_failed : Nat
  subs_pending : Nat
  subs_total : Nat
deriving DecidableEq

/-- The loop body of `/api/health`. -/
def Health.count (now : U64) (h : Health) (s : Sub) : Health :=
  let h := { h with subs_total := h.subs_total + 1 }
  if s.state = active ∧ s.lease_expired now = false then { h with subs_active := h.subs_active + 1 }
  else if s.state = active ∨ s.state = expired then { h with subs_expired := h.subs_expired + 1 }
  else if s.state = pending then { h with subs_pending := h.subs_pending + 1 }
  else { h with subs_failed := h.subs_failed + 1 }

def health (reg : Registry) (now : U64) : Health :=
  (values reg.subs).foldl (Health.count now) ⟨0, 0, 0, 0, 0⟩

end yt_websub.api
