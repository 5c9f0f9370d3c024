import YtWebsub.Store.Log

open rust rust.utf8 rust.text rust.num rust.fs
open yt_websub.util

namespace yt_websub.store

/-- The clock reading and the arguments of one `append` call. -/
structure Call where
  now : U64
  kind : Text
  channel_id : Text
  video_id : Text
  ts : Text
  title : Text
deriving DecidableEq

/-- Arguments for runs on fixed inputs. -/
def Call.sample : Call where
  now := 1
  kind := "new".toList
  channel_id := "UCabcdefghijklmnopqrstuv".toList
  video_id := "abc123XYZ_-".toList
  ts := "2026-06-18T12:00:00+00:00".toList
  title := "My Live Stream".toList

/-- The deduplication key of the arguments. -/
def Call.key (c : Call) : Text :=
  dedup_key c.video_id c.ts c.kind

/-- `append` on bundled arguments. -/
def Store.call (fs : FileSystem) (s : Store) (c : Call) (fault : Option AppendFault) :
    FileSystem × Store × AppendResult :=
  s.append fs c.now fault c.kind c.channel_id c.video_id c.ts c.title

/-- The event that an append writes for its arguments. -/
def Store.event (s : Store) (c : Call) : Event where
  seq := s.next_seq
  received_at := c.now
  kind := c.kind
  channel_id := c.channel_id
  video_id := c.video_id
  ts := c.ts
  title := c.title

@[simp]
theorem event_key (s : Store) (c : Call) : (s.event c).key = c.key := rfl

/-- The store after `e` has been written and the counter has moved on. -/
def Store.recorded (s : Store) (e : Event) (next_seq : U64) : Store :=
  { s with next_seq, recent := push_recent s.recent e, seen := push_seen s.seen s.recent e }

theorem mem_push_recent (recent : List Event) (e : Event) : e ∈ push_recent recent e := by
  simp only [push_recent]
  split
  · cases recent with
    | nil => rename_i hcap; simp [RECENT_CAP] at hcap
    | cons old rest => simp
  · simp

theorem push_recent_subset (recent : List Event) (e : Event) : push_recent recent e ⊆ recent ++ [e] := by
  simp only [push_recent]
  split
  · exact List.tail_subset _
  · exact List.Subset.refl _

/-- A key is only ever remembered for an event in the window. -/
theorem push_seen_subset {seen : Finset Text} {recent : List Event}
    (h : seen ⊆ (recent.map Event.key).toFinset) (e : Event) :
    push_seen seen recent e ⊆ ((push_recent recent e).map Event.key).toFinset := by
  intro key hkey
  simp only [List.mem_toFinset, List.mem_map]
  by_cases hself : key = e.key
  · exact ⟨e, mem_push_recent recent e, hself.symm⟩
  -- The key of an older event: that event is still in the window, or the key is erased with it.
  have hseen : key ∈ seen → ∃ a ∈ recent, a.key = key := fun hmem => by
    simpa only [List.mem_toFinset, List.mem_map] using h hmem
  cases recent with
  | nil =>
    have hmem : key ∈ seen := by simpa [push_seen, RECENT_CAP, hself] using hkey
    obtain ⟨a, ha, _⟩ := hseen hmem
    cases ha
  | cons old rest =>
    simp only [push_seen, push_recent, List.cons_append] at hkey ⊢
    split at hkey
    · rename_i hfull
      obtain ⟨hne, hmem⟩ := Finset.mem_erase.mp hkey
      obtain ⟨a, ha, rfl⟩ := hseen ((Finset.mem_insert.mp hmem).resolve_left hself)
      rw [if_pos hfull]
      rcases List.mem_cons.mp ha with rfl | ha
      · exact absurd rfl hne
      · exact ⟨a, by simp [ha], rfl⟩
    · rename_i hroom
      obtain ⟨a, ha, rfl⟩ := hseen ((Finset.mem_insert.mp hkey).resolve_left hself)
      rw [if_neg hroom]
      exact ⟨a, List.mem_append_left [e] ha, rfl⟩

/-- Everything an append can do: nothing for a duplicate, part of the line on an
error, the whole line otherwise. -/
theorem call_cases (fs : FileSystem) (s : Store) (c : Call) (fault : Option AppendFault) :
    let e := s.event c
    let result := s.call fs c fault
    (e.key ∈ s.seen ∧ result = (fs, s, .ok none)) ∨
    (e.key ∉ s.seen ∧ fault.isSome ∧
      ∃ torn, torn <+: encode (format_line e) ∧ result = (fs.append s.log torn, s, .err)) ∨
    (e.key ∉ s.seen ∧ fault = none ∧ checked_add s.next_seq 1 = none ∧
      result = ((fs.append s.log (encode (format_line e))).sync s.log, s, .panic)) ∨
    (e.key ∉ s.seen ∧ fault = none ∧ ∃ next_seq, checked_add s.next_seq 1 = some next_seq ∧
      result = ((fs.append s.log (encode (format_line e))).sync s.log, s.recorded e next_seq, .ok (some e.seq))) := by
  intro e result
  by_cases hseen : e.key ∈ s.seen
  · exact Or.inl ⟨hseen, if_pos hseen⟩
  right
  have hresult : result = _ := if_neg hseen
  cases fault with
  | some fault =>
    refine Or.inl ⟨hseen, rfl, ?_⟩
    cases fault with
    | write written => exact ⟨_, List.take_prefix _ _, hresult⟩
    | flush => exact ⟨_, List.prefix_rfl, hresult⟩
    | sync => exact ⟨_, List.prefix_rfl, hresult⟩
  | none =>
    right
    cases hadd : checked_add s.next_seq 1 with
    | none => exact Or.inl ⟨hseen, rfl, rfl, by rw [hresult]; simp only [hadd]; rfl⟩
    | some next_seq => exact Or.inr ⟨hseen, rfl, next_seq, rfl, by rw [hresult]; simp only [hadd]; rfl⟩

theorem call_of_seen {fs : FileSystem} {s : Store} {c : Call} (h : (s.event c).key ∈ s.seen)
    (fault : Option AppendFault) : s.call fs c fault = (fs, s, .ok none) :=
  if_pos h

/-- An append answers that the entry is a duplicate only if its key is remembered. -/
theorem seen_of_suppressed {fs fs' : FileSystem} {store store' : Store} {c : Call} {fault : Option AppendFault}
    (h : store.call fs c fault = (fs', store', .ok none)) : c.key ∈ store.seen := by
  obtain ⟨hseen, _⟩ | ⟨_, _, torn, _, hcall⟩ | ⟨_, _, _, hcall⟩ | ⟨_, _, _, _, hcall⟩ := call_cases fs store c fault
  · exact hseen
  all_goals
    rw [hcall] at h
    simp at h

theorem call_write_of_fresh {fs : FileSystem} {s : Store} {c : Call} (h : (s.event c).key ∉ s.seen)
    (written : Nat) : s.call fs c (some (.write written)) =
      (fs.append s.log ((encode (format_line (s.event c))).take written), s, .err) :=
  if_neg h

theorem logBytes_append {fs : FileSystem} {log : Nat} (h : fs.entries events_path = some log) (bytes : Bytes) :
    logBytes (fs.append log bytes) = logBytes fs ++ bytes := by
  rw [logBytes, logBytes, FileSystem.append_read_self h, FileSystem.read_eq_some h]
  rfl

/-- Where a poll after a cursor reads: the window if it reaches back far enough, else the file. -/
def Store.source (fs : FileSystem) (s : Store) (after : U64) : List Event :=
  if ((s.recent.head?.map Event.seq).getD s.next_seq).val ≤ after.val + 1 then s.recent else logged fs

/-- A poll returns the first `max` later events of its source. -/
theorem events_after_eq (fs : FileSystem) (s : Store) {after : U64} {max : Nat} (hafter : after < U64.MAX)
    (hmax : 0 < max) :
    s.events_after fs after max = some (((s.source fs after).filter (fun e => after < e.seq)).take max) := by
  have hroom : after.val + 1 < 2 ^ 64 := by
    rw [Fin.lt_def] at hafter
    simp only [U64.MAX] at hafter
    omega
  unfold Store.events_after Store.source
  rw [checked_add_of_lt hroom]
  simp only [Fin.le_def]
  split
  · rfl
  · congr 1
    rw [collect_after_eq after _ [] hmax]
    simp only [List.nil_append, List.length_nil, Nat.sub_zero]
    unfold logged
    cases fs.read events_path <;> rfl

/-- A poll returns nothing but later events of its source, whatever the limit. -/
theorem mem_source_of_mem_events_after {fs : FileSystem} {s : Store} {after : U64} {max : Nat}
    {events : List Event} (h : s.events_after fs after max = some events) {e : Event} (he : e ∈ events) :
    e ∈ s.source fs after ∧ after < e.seq := by
  unfold Store.events_after at h
  cases hadd : checked_add after 1 with
  | none => simp [hadd] at h
  | some next =>
    have hnext := checked_add_eq_some.mp hadd
    simp only [hadd, Fin.le_def, hnext] at h
    unfold Store.source
    split at h
    · rename_i hfront
      rw [if_pos hfront]
      simp only [Option.some.injEq] at h
      subst h
      have hmem := List.mem_filter.mp (List.mem_of_mem_take he)
      exact ⟨hmem.1, by simpa using hmem.2⟩
    · rename_i hfront
      rw [if_neg hfront]
      simp only [Option.some.injEq] at h
      subst h
      rcases mem_of_mem_collect_after he with hnil | ⟨hmem, hlater⟩
      · cases hnil
      · refine ⟨?_, hlater⟩
        unfold logged
        cases hread : fs.read events_path with
        | none => simp [hread, parsedRows] at hmem
        | some bytes =>
          rw [hread] at hmem
          exact hmem

/-- Every event after the cursor is in the source a poll reads, when the window is an
end of one ordered history and the file holds the event. -/
theorem mem_source {fs : FileSystem} {s : Store} {history : List Event}
    (hsorted : history.Pairwise (fun a b => a.seq ≤ b.seq)) (hwindow : s.recent <:+ history)
    {e : Event} (hmem : e ∈ history) (hfile : e ∈ logged fs)
    (hunique : ∀ e' ∈ history, e'.seq = e.seq → e' = e) (hnext : e.seq < s.next_seq)
    {after : U64} (hafter : after < e.seq) : e ∈ s.source fs after := by
  unfold Store.source
  split
  · rename_i hfront
    obtain ⟨older, holder⟩ := hwindow
    rw [Fin.lt_def] at hafter hnext
    cases hrecent : s.recent with
    | nil =>
      rw [hrecent] at hfront
      simp only [List.head?_nil, Option.map_none, Option.getD_none] at hfront
      omega
    | cons front rest =>
      rw [hrecent] at hfront holder
      simp only [List.head?_cons, Option.map_some, Option.getD_some] at hfront
      rw [← holder, List.mem_append] at hmem
      refine hmem.elim (fun hold => ?_) id
      -- An event older than the window can only tie with its front.
      have hle : e.seq ≤ front.seq := by
        rw [← holder, List.pairwise_append] at hsorted
        exact hsorted.2.2 e hold front List.mem_cons_self
      rw [Fin.le_def] at hle
      have hsame : front = e :=
        hunique front (by rw [← holder]; simp) (Fin.ext (by omega))
      exact hsame ▸ List.mem_cons_self
  · exact hfile

end yt_websub.store
