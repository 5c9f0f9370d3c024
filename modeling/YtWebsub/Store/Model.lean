import YtWebsub.Store.Event

open rust rust.utf8 rust.text rust.num rust.fs
open yt_websub.util

namespace yt_websub.store

def RECENT_CAP : Nat := 2000
def COMPACT_BYTES : Nat := 8 * 1024 * 1024
def COMPACT_MARGIN : Nat := 1000
def MAX_RETAINED_EVENTS : Nat := 100000

/-- Files of the storage directory. -/
def events_path : Path := "events.log".toList
def ack_path : Path := "ack.txt".toList
def events_tmp : Path := with_extension events_path "log.tmp".toList

/-- `log` is the inode the append handle refers to. -/
structure Store where
  log : Nat
  next_seq : U64
  recent : List Event
  seen : Finset Text
  ack_through : U64

/-- `push_back`, then `pop_front` past the cap. -/
def push_recent (recent : List Event) (e : Event) : List Event :=
  let recent := recent ++ [e]
  if RECENT_CAP < recent.length then recent.tail else recent

/-- The key set after the same push: the key of an evicted event is dropped. -/
def push_seen (seen : Finset Text) (recent : List Event) (e : Event) : Finset Text :=
  let seen := insert e.key seen
  match recent ++ [e] with
  | old :: rest => if RECENT_CAP < (old :: rest).length then seen.erase old.key else seen
  | [] => seen

/-- The loop of `Store::open` over the lines of the log. -/
def load_lines : List (Option Text) → U64 → List Event → U64 × List Event
  | [], next_seq, recent => (next_seq, recent)
  | none :: _, next_seq, recent => (next_seq, recent)
  | some line :: lines, next_seq, recent =>
    match parse_line line with
    | some e =>
      load_lines lines (if next_seq ≤ e.seq then saturating_add e.seq 1 else next_seq) (push_recent recent e)
    | none => load_lines lines next_seq recent

/-- The acknowledged cursor on disk; an unreadable or malformed file counts as 0. -/
def load_ack (fs : FileSystem) : U64 :=
  (do parse 64 (trim (← decode (← fs.read ack_path)))).getD 0

def Store.open (fs : FileSystem) : FileSystem × Store :=
  let lines := (fs.read events_path).elim [] readLines
  let (next_seq, recent) := load_lines lines 1 []
  let (fs', log) := fs.openAppend events_path
  (fs', { log, next_seq, recent, seen := (recent.map Event.key).toFinset, ack_through := load_ack fs })

/-- The file operation of `append` that fails. -/
inductive AppendFault where
  /-- `write_all` stops with an error after this many bytes. -/
  | write (written : Nat)
  | flush
  | sync
deriving DecidableEq

inductive AppendResult where
  | ok (seq : Option U64)
  | err
  /-- Arithmetic overflow, which aborts the process. -/
  | panic
deriving DecidableEq

/-- `append` at clock time `now`. On an error the file keeps what was written of the line. -/
def Store.append (fs : FileSystem) (s : Store) (now : U64) (fault : Option AppendFault)
    (kind channel_id video_id ts title : Text) : FileSystem × Store × AppendResult :=
  let key := dedup_key video_id ts kind
  if key ∈ s.seen then (fs, s, .ok none)
  else
    let e : Event := { seq := s.next_seq, received_at := now, kind, channel_id, video_id, ts, title }
    let line := encode (format_line e)
    match fault with
    | some (.write written) => (fs.append s.log (line.take written), s, .err)
    | some .flush => (fs.append s.log line, s, .err)
    | some .sync => (fs.append s.log line, s, .err)
    | none =>
      let fs := (fs.append s.log line).sync s.log
      match checked_add s.next_seq 1 with
      | none => (fs, s, .panic)
      | some next_seq =>
        (fs, { s with next_seq, recent := push_recent s.recent e, seen := push_seen s.seen s.recent e },
          .ok (some e.seq))

def Store.max_seq (s : Store) : U64 :=
  saturating_sub s.next_seq 1

/-- The file loop of `events_after`: push, then stop once `max` events are there. -/
def collect_after (after : U64) (max : Nat) : List (Option Text) → List Event → List Event
  | [], out => out
  | none :: _, out => out
  | some line :: lines, out =>
    match parse_line line with
    | some e =>
      if after < e.seq then
        if max ≤ (out ++ [e]).length then out ++ [e] else collect_after after max lines (out ++ [e])
      else collect_after after max lines out
    | none => collect_after after max lines out

/-- `none` where `after + 1` overflows. -/
def Store.events_after (fs : FileSystem) (s : Store) (after : U64) (max : Nat) : Option (List Event) :=
  let recent_front := (s.recent.head?.map Event.seq).getD s.next_seq
  match checked_add after 1 with
  | none => none
  | some next =>
    if recent_front ≤ next then some ((s.recent.filter (fun e => after < e.seq)).take max)
    else some (collect_after after max ((fs.read events_path).elim [] readLines) [])

/-- The cursor advances in memory even when it cannot be persisted. -/
def Store.set_ack (fs : FileSystem) (s : Store) (through : U64) (fault : Option AtomicFault) :
    FileSystem × Store :=
  if s.ack_through < through then
    let s := { s with ack_through := through }
    ((write_atomic fs ack_path (encode (to_string s.ack_through)) fault).1, s)
  else (fs, s)

/-- The file operation of `maybe_compact` that fails. -/
inductive CompactFault where
  | open
  | create
  /-- A write or the flush stops with an error after this many bytes. -/
  | write (written : Nat)
  | sync
  | rename
  | reopen
deriving DecidableEq

/-- The copy loop of `maybe_compact`: what is kept, and how many events are dropped. -/
def copy_lines (keep_above : U64) : List (Option Text) → Bytes → Nat → Bytes × Nat
  | [], out, dropped => (out, dropped)
  | none :: _, out, dropped => (out, dropped)
  | some line :: lines, out, dropped =>
    match parse_line line with
    | some e =>
      if keep_above < e.seq then copy_lines keep_above lines (out ++ encode line ++ [10]) dropped
      else copy_lines keep_above lines out (dropped + 1)
    | none => copy_lines keep_above lines out dropped

/-- The highest sequence number a compaction may drop. -/
def Store.keep_above (s : Store) : U64 :=
  max (saturating_sub s.ack_through COMPACT_MARGIN) (saturating_sub s.max_seq MAX_RETAINED_EVENTS)

/-- The flag says whether the call returned `Ok`. -/
def Store.maybe_compact (fs : FileSystem) (s : Store) (fault : Option CompactFault) :
    FileSystem × Store × Bool :=
  let len := (fs.read events_path).elim 0 List.length
  if len < COMPACT_BYTES then (fs, s, true)
  else
    match fs.read events_path with
    | none => (fs, s, false)
    | some bytes =>
      if fault = some .open ∨ fault = some .create then (fs, s, false)
      else
        let (out, dropped) := copy_lines s.keep_above (readLines bytes) [] 0
        let (fs, tmp) := fs.create events_tmp
        match fault with
        | some (.write written) => (fs.append tmp (out.take written), s, false)
        | some .sync => (fs.append tmp out, s, false)
        | _ =>
          let fs := (fs.append tmp out).sync tmp
          -- Nothing was reclaimable: the temporary copy is discarded.
          if dropped = 0 then (fs.remove events_tmp, s, true)
          else if fault = some .rename then (fs, s, false)
          else
            match fs.rename events_tmp events_path with
            | none => (fs, s, false)
            | some fs =>
              if fault = some .reopen then (fs, s, false)
              else
                let (fs, log) := fs.openAppend events_path
                (fs, { s with log }, true)

end yt_websub.store
