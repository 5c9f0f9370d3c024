import YtWebsub.Resolve
import YtWebsub.Subs

open rust rust.utf8 rust.text rust.num rust.map
open yt_websub.util yt_websub.resolve yt_websub.subs

namespace yt_websub.hub

def is_ok (code : Fin (2 ^ 16)) : Bool :=
  200 ≤ code.val && code.val < 300

end yt_websub.hub

namespace yt_websub.renew

def RENEW_LEAD : Nat := 24 * 3600
def PENDING_TIMEOUT : Nat := 600
def RENEW_COOLDOWN : Nat := 300

/-- `drawn` is what `rand_below` reads from the OS generator. -/
def backoff (fail_count : Fin (2 ^ 32)) (drawn : U64) : Nat :=
  let factor := 2 ^ min fail_count.val 6
  let base := min (30 * factor) 1800
  base + rand_below drawn (base / 4 + 1)

theorem backoff_le (fail_count : Fin (2 ^ 32)) (drawn : U64) : backoff fail_count drawn ≤ 2250 := by
  have hjitter : ∀ base, rand_below drawn (base / 4 + 1) < base / 4 + 1 := fun base => rand_below_lt (Nat.succ_pos _)
  have hlt := hjitter (min (30 * 2 ^ min fail_count.val 6) 1800)
  simp only [backoff]
  omega

/-- The channels file on disk. -/
structure ChannelsFile where
  content : Bytes
  mtime : U64

def channels_sig (file : Option ChannelsFile) : U64 × Nat :=
  match file with
  | some file => (file.mtime, file.content.length)
  | none => (0, 0)

/-- The lines that name a channel, trimmed. -/
def active_lines (content : Text) : List Text :=
  ((strLines content).map trim).filter fun line => !(line = [] || ['#'].isPrefixOf line)

/-- The loop of `desired_set`. The `i`-th entry is resolved while the network answers
as `fetch i`. -/
def resolve_lines (fetch : Nat → Text → Option Bytes) :
    Nat → List Text → HashMap Text Text → List Text → Bool → List Text × Bool × HashMap Text Text
  | _, [], cache, out, complete => (out, complete, cache)
  | i, line :: lines, cache, out, complete =>
    match resolve (fetch i) line cache with
    | (some uc, cache) => resolve_lines fetch (i + 1) lines cache (if uc ∈ out then out else out ++ [uc]) complete
    | (none, cache) => resolve_lines fetch (i + 1) lines cache out false

/-- What `resolve` makes of the entries, one after the other. -/
def resolutions (fetch : Nat → Text → Option Bytes) : Nat → List Text → HashMap Text Text → List (Option Text)
  | _, [], _ => []
  | i, line :: lines, cache =>
    (resolve (fetch i) line cache).1 :: resolutions fetch (i + 1) lines (resolve (fetch i) line cache).2

/-- `or_insert` of every entry of the local copy. -/
def merge_cache (live cache : HashMap Text Text) : HashMap Text Text :=
  cache.entries.foldl (fun live entry => if entry.1 ∈ live then live else live.insert entry.1 entry.2) live

/-- The channels wanted, whether that is all of them, and the cache afterwards.
`content` is what reading the file gave, if it could be read. -/
def desired_set (content : Option Bytes) (fetch : Nat → Text → Option Bytes) (live : HashMap Text Text) :
    List Text × Bool × HashMap Text Text :=
  match content.bind decode with
  | none => ([], false, live)
  | some content =>
    let (out, complete, cache) := resolve_lines fetch 0 (active_lines content) live [] true
    (out, complete, merge_cache live cache)

/-- The channels that `reconcile_locked` finds missing. -/
def to_add (reg : Registry) (desired : List Text) : List Text :=
  desired.filter fun d => d ∉ reg.subs

/-- The subscriptions that it finds unwanted, in the order of the representation. -/
def to_remove (reg : Registry) (desired : List Text) (complete : Bool) : List Sub :=
  if complete then (values reg.subs).filter fun s => s.channel_id ∉ desired else []

/-- A new subscription as it is registered before its first request. -/
def new_sub (channel_id : Text) (token secret : Bytes) (now : U64) : Sub :=
  { Sub.new channel_id (rand_hex token) (rand_hex secret) with last_subscribe_at := now }

/-- `hub::send` returns a status code or a transport error. -/
def verdict (res : Except Text (Fin (2 ^ 16))) : Option Text :=
  match res with
  | .ok code => if hub.is_ok code then none else some ("HTTP ".toList ++ to_string code)
  | .error e => some (clamp_error e)

/-- A new subscription whose first request was refused; `none` where the time overflows. -/
def refuse_new (s : Sub) (why : Text) (now : U64) (drawn : U64) : Option Sub :=
  (checked_add now (backoff 1 drawn)).map fun next_attempt_at =>
    { s with state := failed, fail_count := 1, next_attempt_at, last_error := why }

/-- What `merge_attempt` writes over the stored sub: an activation that landed meanwhile
is kept. -/
def write_back (cur s : Sub) : Sub :=
  if cur.state = active then
    { s with state := active, expires_at := cur.expires_at, lease_seconds := cur.lease_seconds }
  else s

/-- The registry after `merge_attempt`; `none` when the sub is gone or was replaced. -/
def merge_attempt (reg : Registry) (s : Sub) : Option Registry :=
  match reg.subs.lookup s.channel_id with
  | none => none
  | some cur => if cur.token ≠ s.token then none else some (reg.update (write_back cur s))

def is_live (now : U64) (s : Sub) : Bool :=
  s.state = active && !s.lease_expired now

def live_count (reg : Registry) (now : U64) : Nat :=
  ((values reg.subs).filter (is_live now)).length

def lapsed (now : U64) (s : Sub) : Bool :=
  s.state = active && s.lease_expired now

def demoted (s : Sub) : Sub :=
  { s with state := expired }

/-- The registry after `expire_lapsed`; `none` when no lease has run out. -/
def expire_lapsed (reg : Registry) (now : U64) : Option Registry :=
  let lapsed := ((values reg.subs).filter (lapsed now)).map Sub.channel_id
  if lapsed = [] then none
  else some { reg with subs := lapsed.foldl (fun m cid => modify m cid demoted) reg.subs }

/-- The filter of `renew_due`; `none` where `now + RENEW_LEAD` overflows. -/
def is_due (now : U64) (s : Sub) : Option Bool :=
  if now < s.next_attempt_at then some false
  else if s.state = active then
    if 0 < s.expires_at then (checked_add now RENEW_LEAD).map fun horizon => s.expires_at ≤ horizon
    else some false
  else if s.state = pending then some (PENDING_TIMEOUT < (saturating_sub now s.last_subscribe_at).val)
  else some (s.state = failed || s.state = expired)

/-- The candidates of `renew_due`, from the subs in the order of iteration. -/
def candidates (now : U64) : List Sub → Option (List Sub)
  | [] => some []
  | s :: order => do
    let due ← is_due now s
    let rest ← candidates now order
    some (if due then s :: rest else rest)

theorem mem_candidates {now : U64} {order chosen : List Sub} (h : candidates now order = some chosen) (s : Sub) :
    s ∈ chosen ↔ s ∈ order ∧ is_due now s = some true := by
  induction order generalizing chosen with
  | nil =>
    rw [candidates, Option.some.injEq] at h
    simp [← h]
  | cons t order ih =>
    obtain ⟨due, hdue, h⟩ := Option.bind_eq_some_iff.mp h
    obtain ⟨rest, hrest, h⟩ := Option.bind_eq_some_iff.mp h
    rw [Option.some.injEq] at h
    subst h
    cases due with
    | true =>
      rw [if_pos rfl, List.mem_cons, List.mem_cons, ih hrest]
      constructor
      · rintro (rfl | ⟨hmem, hs⟩)
        · exact ⟨Or.inl rfl, hdue⟩
        · exact ⟨Or.inr hmem, hs⟩
      · rintro ⟨rfl | hmem, hs⟩
        · exact Or.inl rfl
        · exact Or.inr ⟨hmem, hs⟩
    | false =>
      rw [if_neg (by decide), List.mem_cons, ih hrest]
      constructor
      · rintro ⟨hmem, hs⟩
        exact ⟨Or.inr hmem, hs⟩
      · rintro ⟨rfl | hmem, hs⟩
        · rw [hdue] at hs
          cases hs
        · exact ⟨hmem, hs⟩

theorem candidates_sublist {now : U64} {order chosen : List Sub} (h : candidates now order = some chosen) :
    chosen.Sublist order := by
  induction order generalizing chosen with
  | nil =>
    rw [candidates, Option.some.injEq] at h
    exact h ▸ List.Sublist.refl _
  | cons s order ih =>
    obtain ⟨due, hdue, h⟩ := Option.bind_eq_some_iff.mp h
    obtain ⟨rest, hrest, h⟩ := Option.bind_eq_some_iff.mp h
    rw [Option.some.injEq] at h
    subst h
    split
    · exact (ih hrest).cons_cons s
    · exact (ih hrest).cons s

/-- The snapshot of a candidate after the hub has answered at time `now`; `none` where a
sum overflows. -/
def attempted (s : Sub) (answer : Option Text) (now : U64) (drawn : U64) : Option Sub :=
  let was_active := s.state = active
  match answer with
  | none =>
    (checked_add now RENEW_COOLDOWN).map fun next_attempt_at =>
      { s with state := if was_active then s.state else pending, fail_count := 0, last_error := [], next_attempt_at }
  | some why =>
    if h : s.fail_count.val + 1 < 2 ^ 32 then
      let fail_count : Fin (2 ^ 32) := ⟨s.fail_count.val + 1, h⟩
      (checked_add now (backoff fail_count drawn)).map fun next_attempt_at =>
        { s with state := if was_active then s.state else failed, fail_count, last_error := why, next_attempt_at }
    else none

/-- The snapshot of the candidates that `renew_due` takes at time `now`, once the lapsed
leases are demoted; `order` is the order of iteration. -/
def due_snapshot (reg : Registry) (now : U64) (order : List Sub) : Option (List Sub) :=
  let reg := (expire_lapsed reg now).getD reg
  if order.Perm (values reg.subs) then candidates now order else none

/-- Every id that the loop adds is a channel id. -/
theorem resolve_lines_valid {fetch : Nat → Text → Option Bytes} {i : Nat} {lines out : List Text}
    {cache : HashMap Text Text} {complete : Bool} {id : Text}
    (h : id ∈ (resolve_lines fetch i lines cache out complete).1) : id ∈ out ∨ is_channel_id id = true := by
  fun_induction resolve_lines fetch i lines cache out complete with
  | case1 => exact Or.inl h
  | case2 i line lines cache out complete uc cache' hresolve ih =>
    refine (ih h).elim (fun hout => ?_) Or.inr
    split at hout
    · exact Or.inl hout
    · refine (List.mem_append.mp hout).imp_right fun hnew => ?_
      rw [List.mem_singleton.mp hnew]
      exact resolve_valid (congrArg Prod.fst hresolve)
  | case3 i line lines cache out complete cache' hresolve ih => exact ih h

theorem desired_set_valid {content : Option Bytes} {fetch : Nat → Text → Option Bytes} {live : HashMap Text Text}
    {id : Text} (h : id ∈ (desired_set content fetch live).1) : is_channel_id id = true := by
  unfold desired_set at h
  split at h
  · cases h
  · exact (resolve_lines_valid h).resolve_left (List.not_mem_nil)

/-- The loop collects the ids that the entries resolve to. -/
theorem mem_resolve_lines {fetch : Nat → Text → Option Bytes} {i : Nat} {lines out : List Text}
    {cache : HashMap Text Text} {complete : Bool} {id : Text} :
    id ∈ (resolve_lines fetch i lines cache out complete).1 ↔ id ∈ out ∨ some id ∈ resolutions fetch i lines cache := by
  fun_induction resolve_lines fetch i lines cache out complete with
  | case1 => simp [resolutions]
  | case2 i line lines cache out complete uc cache' hresolve ih =>
    rw [ih, resolutions, hresolve, List.mem_cons, Option.some.injEq]
    split
    · rename_i hmem
      constructor
      · exact Or.imp_right Or.inr
      · rintro (hout | rfl | hlater)
        · exact Or.inl hout
        · exact Or.inl hmem
        · exact Or.inr hlater
    · rw [List.mem_append, List.mem_singleton, or_assoc]
  | case3 i line lines cache out complete cache' hresolve ih =>
    rw [ih, resolutions, hresolve, List.mem_cons]
    simp

theorem resolve_lines_nodup {fetch : Nat → Text → Option Bytes} {i : Nat} {lines out : List Text}
    {cache : HashMap Text Text} {complete : Bool} (h : out.Nodup) :
    (resolve_lines fetch i lines cache out complete).1.Nodup := by
  fun_induction resolve_lines fetch i lines cache out complete with
  | case1 => exact h
  | case2 i line lines cache out complete uc cache' hresolve ih =>
    refine ih ?_
    split
    · exact h
    · rename_i hnew
      exact List.nodup_append.mpr ⟨h, List.nodup_singleton uc, fun id hid id' hid' heq =>
        hnew (List.mem_singleton.mp hid' ▸ heq ▸ hid)⟩
  | case3 i line lines cache out complete cache' hresolve ih => exact ih h

theorem desired_set_nodup (content : Option Bytes) (fetch : Nat → Text → Option Bytes) (live : HashMap Text Text) :
    (desired_set content fetch live).1.Nodup := by
  unfold desired_set
  split
  · exact List.nodup_nil
  · exact resolve_lines_nodup List.nodup_nil

/-- The set is complete when every entry resolves. -/
theorem resolve_lines_complete {fetch : Nat → Text → Option Bytes} {i : Nat} {lines out : List Text}
    {cache : HashMap Text Text} {complete : Bool} :
    (resolve_lines fetch i lines cache out complete).2.1 = true ↔
      complete = true ∧ none ∉ resolutions fetch i lines cache := by
  fun_induction resolve_lines fetch i lines cache out complete with
  | case1 => simp [resolutions]
  | case2 i line lines cache out complete uc cache' hresolve ih =>
    rw [ih, resolutions, hresolve]
    simp
  | case3 i line lines cache out complete cache' hresolve ih =>
    rw [ih, resolutions, hresolve]
    simp

theorem write_back_channel_id (cur s : Sub) : (write_back cur s).channel_id = s.channel_id := by
  unfold write_back
  split <;> rfl

theorem write_back_token (cur s : Sub) : (write_back cur s).token = s.token := by
  unfold write_back
  split <;> rfl

theorem mem_expire_lapsed {reg reg' : Registry} {now : U64} (h : expire_lapsed reg now = some reg') {c : Text} :
    c ∈ reg'.subs ↔ c ∈ reg.subs := by
  simp only [expire_lapsed] at h
  split at h
  · cases h
  · rw [Option.some.injEq] at h
    subst h
    exact mem_foldl_modify

/-- Demoting the lapsed leases changes exactly the lapsed subscriptions. -/
theorem expire_lapsed_spec {reg reg' : Registry} {now : U64}
    (hkeyed : reg.Keyed) (h : expire_lapsed reg now = some reg')
    (c : Text) :
    reg'.subs.lookup c = (reg.subs.lookup c).map fun s => if lapsed now s then demoted s else s := by
  simp only [expire_lapsed] at h
  split at h
  · cases h
  rw [Option.some.injEq] at h
  subst h
  have hidempotent : ∀ s, demoted (demoted s) = demoted s := fun _ => rfl
  rw [lookup_foldl_modify hidempotent]
  cases hc : reg.subs.lookup c with
  | none => simp
  | some s =>
    have hmem : c ∈ ((values reg.subs).filter (lapsed now)).map Sub.channel_id ↔ lapsed now s = true := by
      simp only [List.mem_map, List.mem_filter, mem_values]
      constructor
      · rintro ⟨t, ⟨⟨c', hc'⟩, hlapsed⟩, hchannel⟩
        obtain rfl := (hkeyed c' t hc').symm.trans hchannel
        rw [hc, Option.some.injEq] at hc'
        exact hc' ▸ hlapsed
      · exact fun hlapsed => ⟨s, ⟨⟨c, hc⟩, hlapsed⟩, hkeyed c s hc⟩
    by_cases hlapsed : lapsed now s = true
    · rw [if_pos (hmem.mpr hlapsed), Option.map_some, Option.map_some, if_pos hlapsed]
    · rw [if_neg (mt hmem.mp hlapsed), Option.map_some, if_neg hlapsed]

theorem is_due_of_candidates {now : U64} {order chosen : List Sub} (h : candidates now order = some chosen) {s : Sub}
    (hs : s ∈ order) : ∃ due, is_due now s = some due := by
  induction order generalizing chosen with
  | nil => cases hs
  | cons t order ih =>
    obtain ⟨due, hdue, h⟩ := Option.bind_eq_some_iff.mp h
    obtain ⟨rest, hrest, _⟩ := Option.bind_eq_some_iff.mp h
    obtain rfl | hs := List.mem_cons.mp hs
    · exact ⟨due, hdue⟩
    · exact ih hrest hs

theorem is_due_isSome {now : U64} (h : now.val + RENEW_LEAD < 2 ^ 64) (s : Sub) : (is_due now s).isSome := by
  unfold is_due
  repeat' split
  all_goals simp [checked_add_of_lt h]

/-- The selection comes to an end when no sum overflows. -/
theorem candidates_isSome {now : U64} (h : now.val + RENEW_LEAD < 2 ^ 64) (order : List Sub) :
    (candidates now order).isSome := by
  induction order with
  | nil => rfl
  | cons s order ih =>
    obtain ⟨due, hdue⟩ := Option.isSome_iff_exists.mp (is_due_isSome h s)
    obtain ⟨rest, hrest⟩ := Option.isSome_iff_exists.mp ih
    simp [candidates, hdue, hrest]

end yt_websub.renew
