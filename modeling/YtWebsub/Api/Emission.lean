import YtWebsub.Base.JsonReader
import YtWebsub.Store.Event
import YtWebsub.Subs

open rust rust.utf8 rust.text rust.num
open yt_websub.util yt_websub.store yt_websub.subs
open json

namespace yt_websub.api

/-- A comma before every item but the first. -/
def comma_separated (items : List Text) : Text :=
  [','].intercalate items

/-- An event in the body of a GET of `/api/events`. -/
def event_json (e : Event) : Text :=
  '{' :: "\"seq\":".toList ++ to_string e.seq ++ ",\"received_at\":".toList ++ to_string e.received_at ++
    ",\"kind\":".toList ++ json_string e.kind ++ ",\"channel_id\":".toList ++ json_string e.channel_id ++
    ",\"video_id\":".toList ++ json_string e.video_id ++ ",\"ts\":".toList ++ json_string e.ts ++
    ",\"title\":".toList ++ json_string e.title ++ ['}']

def events_body (events : List Event) (max_seq : U64) : Text :=
  '{' :: "\"events\":[".toList ++ comma_separated (events.map event_json) ++ "],\"max_seq\":".toList ++
    to_string max_seq ++ ['}']

/-- `str::cmp` compares byte by byte. -/
def bytes_le (s t : Text) : Bool :=
  (encode s).map UInt8.toNat ≤ (encode t).map UInt8.toNat

/-- The order in which the channels are listed. -/
def sort_by_channel_id (subs : List Sub) : List Sub :=
  subs.mergeSort fun a b => bytes_le a.channel_id b.channel_id

/-- A subscription in the body of a GET of `/api/channels`. -/
def channel_json (s : Sub) : Text :=
  '{' :: "\"channel_id\":".toList ++ json_string s.channel_id ++ ",\"state\":".toList ++ json_string s.state ++
    ",\"lease_seconds\":".toList ++ to_string s.lease_seconds ++ ",\"expires_at\":".toList ++
    to_string s.expires_at ++ ",\"fail_count\":".toList ++ to_string s.fail_count ++
    ",\"last_subscribe_at\":".toList ++ to_string s.last_subscribe_at ++ ",\"next_attempt_at\":".toList ++
    to_string s.next_attempt_at ++ ",\"last_error\":".toList ++ json_string s.last_error ++
    ",\"topic\":".toList ++ json_string s.topic ++ ['}']

/-- `subs` are the values of the registry, in the order of its map. -/
def channels_body (subs : List Sub) : Text :=
  '{' :: "\"channels\":[".toList ++ comma_separated ((sort_by_channel_id subs).map channel_json) ++
    "],\"count\":".toList ++ to_string subs.length ++ ['}']

/-- How a character is written in a literal. -/
def json_piece (c : Char) : Piece :=
  if c = '"' then .escape '"'
  else if c = '\\' then .escape '\\'
  else if c = '\n' then .escape 'n'
  else if c = '\r' then .escape 'r'
  else if c = '\t' then .escape 't'
  else if c.toNat < 0x20 then
    .unicode '0' '0' (Nat.digitChar (c.toNat / 16)) (Nat.digitChar (c.toNat % 16))
  else .plain c

theorem json_piece_text (c : Char) : (json_piece c).text = json_char c := by
  have hcontrol : ∀ n < 0x20, hexPadded n = ['0', '0', Nat.digitChar (n / 16), Nat.digitChar (n % 16)] := by
    decide +kernel
  unfold json_piece json_char
  split_ifs with _ _ _ _ _ hsmall
  all_goals try rfl
  rw [hcontrol c.toNat hsmall]
  rfl

theorem json_piece_valid (c : Char) : (json_piece c).Valid := by
  have hcontrol : ∀ n < 0x20, (Piece.unicode '0' '0' (Nat.digitChar (n / 16)) (Nat.digitChar (n % 16))).Valid := by
    decide +kernel
  unfold json_piece
  split_ifs with hquote hbackslash _ _ _ hsmall
  all_goals try decide
  · exact hcontrol c.toNat hsmall
  · exact ⟨hquote, hbackslash, by omega⟩

theorem json_piece_units (c : Char) : (json_piece c).units = utf16 c := by
  have hcontrol : ∀ n < 0x20,
      (Piece.unicode '0' '0' (Nat.digitChar (n / 16)) (Nat.digitChar (n % 16))).units = [n] := by
    decide +kernel
  unfold json_piece
  split_ifs with hquote hbackslash hnewline hreturn htab hsmall
  · rw [hquote]
    decide
  · rw [hbackslash]
    decide
  · rw [hnewline]
    decide
  · rw [hreturn]
    decide
  · rw [htab]
    decide
  · rw [hcontrol c.toNat hsmall, utf16, if_pos (by omega)]
  · rfl

/-- What `json_string` writes is one literal, and it stands for the string. -/
theorem json_string_eq (s : Text) :
    json_string s = quote (s.map json_piece) ∧ (∀ p ∈ s.map json_piece, p.Valid) ∧ Stands (s.map json_piece) s := by
  refine ⟨?_, ?_, ?_⟩
  · rw [json_string, quote, List.flatMap_map]
    simp only [json_piece_text]
  · simp only [List.mem_map, forall_exists_index, and_imp, forall_apply_eq_imp_iff₂]
    exact fun c _ => json_piece_valid c
  · rw [Stands, List.flatMap_map]
    simp only [json_piece_units]

/-- What a member of a listed object holds. -/
inductive Field where
  | number (n : Nat)
  | string (s : Text)

def Field.text : Field → Text
  | .number n => to_string n
  | .string s => json_string s

def Field.value : Field → Value
  | .number n => .number (to_string n)
  | .string s => .string (s.map json_piece)

def Field.data : Field → Data
  | .number n => .number n
  | .string s => .string s

theorem Field.renders (f : Field) : Renders f.value f.text := by
  cases f with
  | number n => exact .number (Number.of_toDigits n)
  | string s =>
    obtain ⟨hquote, hvalid, _⟩ := json_string_eq s
    rw [Field.text, hquote]
    exact .string hvalid

theorem Field.value_data (f : Field) : f.value.data = some f.data := by
  cases f with
  | number n => rw [Field.value, Value.data, to_string, number_toDigits]; rfl
  | string s => rw [Field.value, Value.data, (json_string_eq s).2.2.ofUnits]; rfl

/-- The names and what they hold, in the order in which they are written. -/
abbrev Fields := List (Text × Field)

def Fields.text (fields : Fields) : Text :=
  '{' :: comma_separated (fields.map fun f => member f.1 f.2.text) ++ ['}']

def Fields.value (fields : Fields) : Value :=
  .object (fields.map fun f => (plainKey f.1, f.2.value))

def Fields.data (fields : Fields) : Data :=
  .object (fields.map fun f => (f.1, f.2.data))

/-- No name needs an escape. -/
def Fields.Plain (fields : Fields) : Prop :=
  ∀ f ∈ fields, ∀ c ∈ f.1, (Piece.plain c).Valid

theorem Fields.renders {fields : Fields} (h : fields.Plain) : Renders fields.value fields.text := by
  have hmembers := @RendersMembers.of_forall (fields.map fun f => (f.1, f.2.value))
    (fields.map fun f => member f.1 f.2.text) ?_ ?_
  · rw [List.map_map] at hmembers
    exact .object hmembers
  · intro m hm
    obtain ⟨f, hf, rfl⟩ := List.mem_map.mp hm
    exact h f hf
  · rw [List.forall₂_map_left_iff, List.forall₂_map_right_iff, List.forall₂_same]
    exact fun f _ => ⟨f.2.text, rfl, f.2.renders⟩

theorem Fields.value_data (fields : Fields) : fields.value.data = some fields.data := by
  rw [Fields.value, Value.data, membersData_map fun f _ => f.2.value_data]
  rfl

def event_fields (e : Event) : Fields :=
  [("seq".toList, .number e.seq), ("received_at".toList, .number e.received_at), ("kind".toList, .string e.kind),
    ("channel_id".toList, .string e.channel_id), ("video_id".toList, .string e.video_id),
    ("ts".toList, .string e.ts), ("title".toList, .string e.title)]

theorem event_json_eq (e : Event) : event_json e = Fields.text (event_fields e) := by
  delta event_json -- the equation lemma of so long a text is slow to generate
  simp [Fields.text, event_fields, comma_separated, member, Field.text, List.intercalate]

def channel_fields (s : Sub) : Fields :=
  [("channel_id".toList, .string s.channel_id), ("state".toList, .string s.state),
    ("lease_seconds".toList, .number s.lease_seconds), ("expires_at".toList, .number s.expires_at),
    ("fail_count".toList, .number s.fail_count), ("last_subscribe_at".toList, .number s.last_subscribe_at),
    ("next_attempt_at".toList, .number s.next_attempt_at), ("last_error".toList, .string s.last_error),
    ("topic".toList, .string s.topic)]

theorem channel_json_eq (s : Sub) : channel_json s = Fields.text (channel_fields s) := by
  delta channel_json
  simp [Fields.text, channel_fields, comma_separated, member, Field.text, List.intercalate]

theorem event_fields_plain (e : Event) : Fields.Plain (event_fields e) := by
  simp [Fields.Plain, event_fields, Piece.Valid]

theorem channel_fields_plain (s : Sub) : Fields.Plain (channel_fields s) := by
  simp [Fields.Plain, channel_fields, Piece.Valid]

/-- A listing: the objects under one name, and a number under another. -/
def listing (list total : Text) (objects : List Fields) (n : Nat) : Text :=
  '{' :: comma_separated [member list ('[' :: comma_separated (objects.map Fields.text) ++ [']']),
    member total (to_string n)] ++ ['}']

def listing_value (list total : Text) (objects : List Fields) (n : Nat) : Value :=
  .object ([(list, .array (objects.map Fields.value)), (total, .number (to_string n))].map fun m => (plainKey m.1, m.2))

def listing_data (list total : Text) (objects : List Fields) (n : Nat) : Data :=
  .object [(list, .array (objects.map Fields.data)), (total, .number n)]

theorem listing_complete (list total : Text) {objects : List Fields} (n : Nat)
    (hnames : ∀ name ∈ [list, total], ∀ c ∈ name, (Piece.plain c).Valid) (hobjects : ∀ fields ∈ objects, fields.Plain) :
    Complete (listing_value list total objects n) (listing list total objects n) := by
  have hitems : List.Forall₂ Renders (objects.map Fields.value) (objects.map Fields.text) := by
    rw [List.forall₂_map_left_iff, List.forall₂_map_right_iff, List.forall₂_same]
    exact fun fields hmem => Fields.renders (hobjects fields hmem)
  have hmembers := @RendersMembers.of_forall
    [(list, .array (objects.map Fields.value)), (total, .number (to_string n))]
    [member list ('[' :: comma_separated (objects.map Fields.text) ++ [']']), member total (to_string n)]
    (by simpa using hnames) ?_
  · exact ⟨[], _, [], Blank.nil, .object hmembers, Blank.nil, by rw [List.nil_append, List.append_nil]; rfl⟩
  · refine .cons ⟨_, rfl, .array (.of_forall hitems)⟩ (.cons ⟨_, rfl, .number (Number.of_toDigits n)⟩ .nil)

theorem listing_value_data (list total : Text) (objects : List Fields) (n : Nat) :
    (listing_value list total objects n).data = some (listing_data list total objects n) := by
  have hitems := @itemsData_map Fields objects Fields.value Fields.data fun fields _ =>
    fields.value_data
  simp [listing_value, listing_data, Value.data, membersData, (plainKey_stands list).ofUnits,
    (plainKey_stands total).ofUnits, hitems, to_string, number_toDigits]

theorem events_body_eq (events : List Event) (max_seq : U64) :
    events_body events max_seq = listing "events".toList "max_seq".toList (events.map event_fields) max_seq := by
  have hjson : event_json = Fields.text ∘ event_fields := funext event_json_eq
  simp [events_body, listing, comma_separated, member, List.intercalate, hjson]

theorem channels_body_eq (subs : List Sub) :
    channels_body subs =
      listing "channels".toList "count".toList ((sort_by_channel_id subs).map channel_fields) subs.length := by
  have hjson : channel_json = Fields.text ∘ channel_fields := funext channel_json_eq
  simp [channels_body, listing, comma_separated, member, List.intercalate, hjson]

theorem sort_by_channel_id_sorted (subs : List Sub) :
    (sort_by_channel_id subs).Pairwise fun a b => bytes_le a.channel_id b.channel_id = true := by
  refine List.pairwise_mergeSort ?_ ?_ subs
  · intro a b c hab hbc
    simp only [bytes_le, decide_eq_true_eq] at *
    exact le_trans hab hbc
  · intro a b
    simp only [bytes_le, Bool.or_eq_true, decide_eq_true_eq]
    exact le_total _ _

/-- The bodies are JSON, and what is read from them is what was listed. -/
theorem bodies_decode :
    (∀ s, ∃ ps, json_string s = quote ps ∧ (∀ p ∈ ps, p.Valid) ∧ Stands ps s ∧
      json.parse (json_string s) = some (.string s)) ∧
    (∀ events max_seq, (∃ v, Complete v (events_body events max_seq)) ∧
      json.parse (events_body events max_seq) =
        some (.object [("events".toList, .array (events.map fun e => Fields.data (event_fields e))),
          ("max_seq".toList, .number max_seq.val)])) ∧
    ∀ subs, (∃ v, Complete v (channels_body subs)) ∧
      ∃ listed : List Sub, listed.Perm subs ∧
        listed.Pairwise (fun a b => bytes_le a.channel_id b.channel_id = true) ∧
        json.parse (channels_body subs) =
          some (.object [("channels".toList, .array (listed.map fun s => Fields.data (channel_fields s))),
            ("count".toList, .number subs.length)]) := by
  refine ⟨fun s => ?_, fun events max_seq => ?_, fun subs => ?_⟩
  · obtain ⟨hquote, hvalid, hstands⟩ := json_string_eq s
    have hcomplete : Complete (.string (s.map json_piece)) (json_string s) :=
      ⟨[], _, [], Blank.nil, .string hvalid, Blank.nil, by rw [List.nil_append, List.append_nil, hquote]⟩
    exact ⟨_, hquote, hvalid, hstands, hcomplete.parse_eq (Field.value_data (.string s))⟩
  · have hcomplete := listing_complete "events".toList "max_seq".toList max_seq.val
      (by simp [Piece.Valid]) (List.forall_mem_map.mpr fun e (_ : e ∈ events) => event_fields_plain e)
    rw [← events_body_eq] at hcomplete
    refine ⟨⟨_, hcomplete⟩, ?_⟩
    rw [hcomplete.parse_eq (listing_value_data _ _ _ _), listing_data, List.map_map]
    rfl
  · have hcomplete := listing_complete "channels".toList "count".toList subs.length (by simp [Piece.Valid])
      (List.forall_mem_map.mpr fun s (_ : s ∈ sort_by_channel_id subs) => channel_fields_plain s)
    rw [← channels_body_eq] at hcomplete
    refine ⟨⟨_, hcomplete⟩, sort_by_channel_id subs, List.mergeSort_perm _ _, sort_by_channel_id_sorted subs, ?_⟩
    rw [hcomplete.parse_eq (listing_value_data _ _ _ _), listing_data, List.map_map]
    rfl

end yt_websub.api
