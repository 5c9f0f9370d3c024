import YtWebsub.Base.HashMap
import YtWebsub.Base.Num
import YtWebsub.Util

open rust rust.utf8 rust.text rust.num rust.map
open yt_websub.util

namespace yt_websub.subs

/-- `state` is free text: it is read back from a file without being checked. -/
structure Sub where
  channel_id : Text
  token : Text
  topic : Text
  secret : Text
  state : Text
  lease_seconds : U64
  expires_at : U64
  last_subscribe_at : U64
  fail_count : Fin (2 ^ 32)
  next_attempt_at : U64
  last_error : Text
deriving DecidableEq

def pending : Text := "pending".toList
def active : Text := "active".toList
def expired : Text := "expired".toList
def failed : Text := "failed".toList

def topic_for (channel_id : Text) : Text :=
  "https://www.youtube.com/feeds/videos.xml?channel_id=".toList ++ channel_id

/-- `Sub::new`, with the two strings drawn from the OS generator given. -/
def Sub.new (channel_id token secret : Text) : Sub where
  channel_id := channel_id
  token := token
  topic := topic_for channel_id
  secret := secret
  state := pending
  lease_seconds := 0
  expires_at := 0
  last_subscribe_at := 0
  fail_count := 0
  next_attempt_at := 0
  last_error := []

def Sub.lease_expired (s : Sub) (now : U64) : Bool :=
  0 < s.expires_at && s.expires_at ≤ now

def MAX_ERR : Nat := 200
def UNSUB_GRACE : Nat := 900

def clamp_error (s : Text) : Text :=
  s.take MAX_ERR

/-- The columns of a row. -/
def Sub.columns (s : Sub) : List Text :=
  [s.channel_id, s.token, s.topic, s.secret, s.state, to_string s.lease_seconds, to_string s.expires_at,
    to_string s.last_subscribe_at, to_string s.fail_count, to_string s.next_attempt_at,
    pct_encode (clamp_error s.last_error)]

/-- The line without its newline. -/
def Sub.row (s : Sub) : Text :=
  ['\t'].intercalate s.columns

def fmt_line (s : Sub) : Text :=
  s.row ++ ['\n']

/-- Columns after the tenth are optional; those after the eleventh are ignored. -/
def parse_line (line : Text) : Option Sub :=
  match line.splitOn '\t' with
  | channel_id :: token :: topic :: secret :: state :: lease_seconds :: expires_at :: last_subscribe_at ::
      fail_count :: next_attempt_at :: rest => do
    some {
      channel_id, token, topic, secret, state
      lease_seconds := ← parse 64 lease_seconds
      expires_at := ← parse 64 expires_at
      last_subscribe_at := ← parse 64 last_subscribe_at
      fail_count := ← parse 32 fail_count
      next_attempt_at := ← parse 64 next_attempt_at
      last_error := (rest.head?.map pct_decode).getD [] }
  | _ => none

set_option linter.dupNamespace false in
structure Registry where
  subs : HashMap Text Sub
  /-- The channel that a token belongs to (`by_token` in the source, like the method). -/
  token_channel : HashMap Text Text
  /-- Topic and deadline of the tokens of removed subscriptions. -/
  unsub_pending : HashMap Text (Text × U64)

def Registry.empty : Registry where
  subs := ∅
  token_channel := ∅
  unsub_pending := ∅

def Registry.insert (reg : Registry) (s : Sub) : Registry :=
  { reg with
    token_channel := reg.token_channel.insert s.token s.channel_id
    subs := reg.subs.insert s.channel_id s }

/-- The loop of `load` over the lines of the file. -/
def load_rows : List Text → Registry → Registry
  | [], reg => reg
  | line :: lines, reg =>
    match parse_line line with
    | some s => load_rows lines (reg.insert s)
    | none => load_rows lines reg

/-- A missing file, or one that is not UTF-8, loads as the empty registry. -/
def Registry.load (content : Option Bytes) : Registry :=
  match content.bind decode with
  | some content => load_rows (strLines content) .empty
  | none => .empty

/-- The file that `save` writes when it meets the subs in this order. -/
def render (order : List Sub) : Bytes :=
  encode (order.flatMap fmt_line)

/-- `save`, iterating over the map in the given order; `none` for what is not an order
of its values. -/
def Registry.save (reg : Registry) (order : List Sub) : Option Bytes :=
  if order.Perm (values reg.subs) then some (render order) else none

def Registry.by_token (reg : Registry) (token : Text) : Option Sub :=
  (reg.token_channel.lookup token).bind fun cid => reg.subs.lookup cid

def Registry.update (reg : Registry) (s : Sub) : Registry :=
  let token_channel :=
    match reg.subs.lookup s.channel_id with
    | some old => if old.token ≠ s.token then reg.token_channel.erase old.token else reg.token_channel
    | none => reg.token_channel
  { reg with
    token_channel := token_channel.insert s.token s.channel_id
    subs := reg.subs.insert s.channel_id s }

def Registry.sweep_unsub (reg : Registry) (now : U64) : Registry :=
  { reg with unsub_pending := retain reg.unsub_pending fun entry => now < entry.2 }

/-- `none` where `now + UNSUB_GRACE` overflows. -/
def Registry.remove (reg : Registry) (channel_id : Text) (now : U64) : Option Registry :=
  match reg.subs.lookup channel_id with
  | some s =>
    match checked_add now UNSUB_GRACE with
    | some deadline =>
      some (Registry.sweep_unsub
        { subs := reg.subs.erase channel_id
          token_channel := reg.token_channel.erase s.token
          unsub_pending := reg.unsub_pending.insert s.token (s.topic, deadline) } now)
    | none => none
  | none => some reg

def Registry.unsub_topic (reg : Registry) (token : Text) (now : U64) : Option Text :=
  ((reg.unsub_pending.lookup token).filter fun entry => now < entry.2).map Prod.fst

def Registry.forget_unsub (reg : Registry) (token : Text) (now : U64) : Registry :=
  Registry.sweep_unsub { reg with unsub_pending := reg.unsub_pending.erase token } now

/-- Every key of the map is the channel of its subscription. -/
def Registry.Keyed (reg : Registry) : Prop :=
  ∀ c s, reg.subs.lookup c = some s → s.channel_id = c

theorem lookup_insert {reg : Registry} {s s' : Sub} {c : Text} :
    (reg.insert s).subs.lookup c = some s' ↔
      (c = s.channel_id ∧ s' = s) ∨ (c ≠ s.channel_id ∧ reg.subs.lookup c = some s') :=
  lookup_insert_eq_some

theorem lookup_update {reg : Registry} {s s' : Sub} {c : Text} :
    (reg.update s).subs.lookup c = some s' ↔
      (c = s.channel_id ∧ s' = s) ∨ (c ≠ s.channel_id ∧ reg.subs.lookup c = some s') :=
  lookup_insert_eq_some

theorem lookup_remove {reg reg' : Registry} {channel_id : Text} {now : U64}
    (h : reg.remove channel_id now = some reg') {c : Text} {s : Sub} :
    reg'.subs.lookup c = some s ↔ c ≠ channel_id ∧ reg.subs.lookup c = some s := by
  simp only [Registry.remove] at h
  split at h
  · split at h
    · rw [Option.some.injEq] at h
      subst h
      exact lookup_erase_eq_some
    · cases h
  · rename_i hnone
    rw [Option.some.injEq] at h
    subst h
    refine ⟨fun hs => ⟨?_, hs⟩, fun hs => hs.2⟩
    rintro rfl
    rw [hnone] at hs
    cases hs

theorem Registry.Keyed.insert {reg : Registry} (h : reg.Keyed) (s : Sub) : (reg.insert s).Keyed := by
  intro c s' hs'
  obtain ⟨rfl, rfl⟩ | ⟨_, hold⟩ := lookup_insert.mp hs'
  · rfl
  · exact h c s' hold

theorem Registry.Keyed.update {reg : Registry} (h : reg.Keyed) (s : Sub) : (reg.update s).Keyed := by
  intro c s' hs'
  obtain ⟨rfl, rfl⟩ | ⟨_, hold⟩ := lookup_update.mp hs'
  · rfl
  · exact h c s' hold

theorem mem_insert {reg : Registry} {s : Sub} {c : Text} :
    c ∈ (reg.insert s).subs ↔ c = s.channel_id ∨ c ∈ reg.subs :=
  AList.mem_insert _

/-- Writing over a stored subscription adds no channel. -/
theorem mem_update {reg : Registry} {s cur : Sub} (hcur : reg.subs.lookup s.channel_id = some cur) {c : Text} :
    c ∈ (reg.update s).subs ↔ c ∈ reg.subs := by
  have hmem : s.channel_id ∈ reg.subs := AList.lookup_isSome.mp (hcur ▸ rfl)
  refine (AList.mem_insert _).trans ⟨fun h => h.elim (fun heq => heq ▸ hmem) id, Or.inr⟩

theorem mem_remove {reg reg' : Registry} {channel_id : Text} {now : U64}
    (h : reg.remove channel_id now = some reg') {c : Text} : c ∈ reg'.subs ↔ c ≠ channel_id ∧ c ∈ reg.subs := by
  rw [← AList.lookup_isSome, ← AList.lookup_isSome, Option.isSome_iff_exists, Option.isSome_iff_exists]
  simp only [lookup_remove h, exists_and_left]

end yt_websub.subs
