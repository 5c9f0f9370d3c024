import YtWebsub.Resolve
import YtWebsub.Subs

open rust rust.utf8 rust.text rust.num rust.map
open yt_websub.util yt_websub.resolve

namespace yt_websub.subs

/-- The states that the program gives to a subscription. -/
def states : List Text :=
  [pending, active, expired, failed]

/-- What every subscription made by the program has, so that its row can be read back. -/
structure Sub.Storable (s : Sub) : Prop where
  channel_id : is_channel_id s.channel_id = true
  token : ∀ c ∈ s.token, c.isAlphanum = true
  topic : s.topic = topic_for s.channel_id
  secret : ∀ c ∈ s.secret, c.isAlphanum = true
  state : s.state ∈ states
  last_error : s.last_error.length ≤ MAX_ERR

/-- Nothing that would break the framing is in a column of a storable subscription. -/
theorem Sub.Storable.not_mem_columns {s : Sub} (h : s.Storable) {c : Char} (hc : c ∈ ['\t', '\n', '\r']) :
    ∀ column ∈ s.columns, c ∉ column := by
  obtain ⟨halnum, hdigit, hcontrol, hid, htopic, hstate⟩ : c.isAlphanum = false ∧ c.isDigit = false ∧
      c.toNat < 0x20 ∧ isIdByte (UInt8.ofNat c.toNat) = false ∧
      c ∉ "https://www.youtube.com/feeds/videos.xml?channel_id=".toList ∧ ∀ state ∈ states, c ∉ state := by
    simp only [List.mem_cons, List.not_mem_nil, or_false] at hc
    obtain rfl | rfl | rfl := hc <;> decide +kernel
  have hchannel := not_mem_of_all_isIdByte (is_channel_id_alphabet h.channel_id) hid
  simp only [Sub.columns, List.mem_cons, List.not_mem_nil, or_false, forall_eq_or_imp, forall_eq]
  refine ⟨hchannel, ?_, ?_, ?_, hstate _ h.state, not_mem_to_string hdigit, not_mem_to_string hdigit,
    not_mem_to_string hdigit, not_mem_to_string hdigit, not_mem_to_string hdigit, ?_⟩
  · intro hmem
    rw [h.token c hmem] at halnum
    cases halnum
  · rw [h.topic]
    exact fun hmem => (List.mem_append.mp hmem).elim htopic hchannel
  · intro hmem
    rw [h.secret c hmem] at halnum
    cases halnum
  · intro hmem
    have hprintable := printable_of_mem_pct_encode hmem
    omega

/-- A written row is read back as the subscription it was written for. -/
theorem Sub.Storable.parse_row {s : Sub} (h : s.Storable) : parse_line s.row = some s := by
  have hsplit : s.row.splitOn '\t' = s.columns :=
    List.splitOn_intercalate '\t' (h.not_mem_columns (by decide)) (by simp [Sub.columns])
  have herror : clamp_error s.last_error = s.last_error := List.take_of_length_le h.last_error
  rw [parse_line, hsplit]
  simp [Sub.columns, herror]

/-- A row of the format before the eleventh column. -/
def Sub.old_row (s : Sub) : Text :=
  ['\t'].intercalate (s.columns.take 10)

/-- What is left of a subscription in the older format, when its row is in that format. -/
def Sub.aged (old : Sub → Bool) (s : Sub) : Sub :=
  if old s then { s with last_error := [] } else s

/-- The file that `save` writes, with some of the rows in the older format. -/
def render_aged (old : Sub → Bool) (order : List Sub) : Bytes :=
  encode (order.flatMap fun s => (if old s then s.old_row else s.row) ++ ['\n'])

theorem Sub.Storable.parse_old_row {s : Sub} (h : s.Storable) :
    parse_line s.old_row = some { s with last_error := [] } := by
  have hsplit : s.old_row.splitOn '\t' = s.columns.take 10 :=
    List.splitOn_intercalate '\t'
      (fun column hcolumn => h.not_mem_columns (by decide) column (List.mem_of_mem_take hcolumn))
      (by simp [Sub.columns])
  rw [parse_line, hsplit]
  simp [Sub.columns]

/-- The rows are read in the order in which they were written. -/
theorem load_rows_map {row : Sub → Text} {back : Sub → Sub} {order : List Sub}
    (h : ∀ s ∈ order, parse_line (row s) = some (back s)) (reg : Registry) :
    load_rows (order.map row) reg = (order.map back).foldl Registry.insert reg := by
  induction order generalizing reg with
  | nil => rfl
  | cons s order ih =>
    obtain ⟨hs, hrest⟩ := List.forall_mem_cons.mp h
    rw [List.map_cons, load_rows, hs]
    exact ih hrest (reg.insert (back s))

theorem load_lines (row : Sub → Text) (back : Sub → Sub) {order : List Sub}
    (hparse : ∀ s ∈ order, parse_line (row s) = some (back s)) (hline : ∀ s ∈ order, '\n' ∉ row s ∧ '\r' ∉ row s) :
    Registry.load (some (encode (order.flatMap fun s => row s ++ ['\n']))) =
      (order.map back).foldl Registry.insert .empty := by
  have hlines : strLines (order.flatMap fun s => row s ++ ['\n']) = order.map row := by
    rw [← strLines_terminated (List.forall_mem_map.mpr hline), List.flatMap_map]
  simp only [Registry.load, Option.bind_some, decode_encode, hlines]
  exact load_rows_map hparse .empty

theorem load_render {order : List Sub} (h : ∀ s ∈ order, s.Storable) :
    Registry.load (some (render order)) = order.foldl Registry.insert .empty := by
  have hload := load_lines Sub.row id (fun s hs => (h s hs).parse_row) fun s hs =>
    ⟨not_mem_intercalate (by decide) ((h s hs).not_mem_columns (by decide)),
      not_mem_intercalate (by decide) ((h s hs).not_mem_columns (by decide))⟩
  rw [List.map_id] at hload
  exact hload

theorem load_render_aged (old : Sub → Bool) {order : List Sub} (h : ∀ s ∈ order, s.Storable) :
    Registry.load (some (render_aged old order)) = (order.map (Sub.aged old)).foldl Registry.insert .empty := by
  refine load_lines _ _ (fun s hs => ?_) fun s hs => ?_
  · unfold Sub.aged
    split
    · exact (h s hs).parse_old_row
    · exact (h s hs).parse_row
  · have hcolumns : ∀ {c : Char}, c ∈ ['\t', '\n', '\r'] → ∀ column ∈ s.columns.take 10, c ∉ column :=
      fun hc column hmem => (h s hs).not_mem_columns hc column (List.mem_of_mem_take hmem)
    split
    · exact ⟨not_mem_intercalate (by decide) (hcolumns (by decide)),
        not_mem_intercalate (by decide) (hcolumns (by decide))⟩
    · exact ⟨not_mem_intercalate (by decide) ((h s hs).not_mem_columns (by decide)),
        not_mem_intercalate (by decide) ((h s hs).not_mem_columns (by decide))⟩

/-- After rows of different channels, the registry holds each under its channel. -/
theorem lookup_foldl_insert {order : List Sub} (hdistinct : (order.map Sub.channel_id).Nodup) (reg : Registry)
    (c : Text) (s : Sub) :
    (order.foldl Registry.insert reg).subs.lookup c = some s ↔
      (s ∈ order ∧ s.channel_id = c) ∨ (c ∉ order.map Sub.channel_id ∧ reg.subs.lookup c = some s) := by
  induction order generalizing reg with
  | nil => simp
  | cons t order ih =>
    obtain ⟨ht, hrest⟩ := List.nodup_cons.mp hdistinct
    rw [List.foldl_cons, ih hrest]
    simp only [Registry.insert, lookup_insert_eq_some, List.mem_cons, List.map_cons, not_or]
    constructor
    · rintro (⟨hs, hc⟩ | ⟨hc, ⟨rfl, rfl⟩ | ⟨hne, hreg⟩⟩)
      · exact Or.inl ⟨Or.inr hs, hc⟩
      · exact Or.inl ⟨Or.inl rfl, rfl⟩
      · exact Or.inr ⟨⟨hne, hc⟩, hreg⟩
    · rintro (⟨rfl | hs, hc⟩ | ⟨⟨hne, hc⟩, hreg⟩)
      · exact Or.inr ⟨hc ▸ ht, Or.inl ⟨hc.symm, rfl⟩⟩
      · exact Or.inl ⟨hs, hc⟩
      · exact Or.inr ⟨hc, Or.inr ⟨hne, hreg⟩⟩

theorem Registry.Keyed.nodup_channels {reg : Registry} (h : reg.Keyed) :
    ((values reg.subs).map Sub.channel_id).Nodup := by
  have hkeys : (values reg.subs).map Sub.channel_id = reg.subs.keys := by
    rw [values, List.map_map, AList.keys, List.keys]
    refine List.map_congr_left fun entry hentry => ?_
    exact h entry.1 entry.2 (AList.mem_lookup_iff.mpr hentry)
  rw [hkeys]
  exact reg.subs.nodupKeys

/-- Rows of the subscriptions of a registry, in any order and with some fields changed,
load as that registry with those fields changed. -/
theorem lookup_load {reg : Registry} (hkeyed : reg.Keyed) (back : Sub → Sub)
    (hback : ∀ s, (back s).channel_id = s.channel_id) {order : List Sub} (hperm : order.Perm (values reg.subs))
    (c : Text) :
    ((order.map back).foldl Registry.insert .empty).subs.lookup c = (reg.subs.lookup c).map back := by
  have hchannels : (order.map back).map Sub.channel_id = order.map Sub.channel_id := by
    rw [List.map_map]
    exact List.map_congr_left fun s _ => hback s
  have hnodup : ((order.map back).map Sub.channel_id).Nodup :=
    hchannels ▸ (hperm.map _).nodup_iff.mpr hkeyed.nodup_channels
  refine Option.ext fun s => ?_
  rw [lookup_foldl_insert hnodup, Option.map_eq_some_iff]
  simp only [Registry.empty, AList.lookup_empty, reduceCtorEq, and_false, or_false, List.mem_map, hperm.mem_iff,
    mem_values]
  constructor
  · rintro ⟨⟨old, ⟨c', hc'⟩, rfl⟩, rfl⟩
    refine ⟨old, ?_, rfl⟩
    rwa [hback, hkeyed c' old hc']
  · rintro ⟨old, hc, rfl⟩
    exact ⟨⟨old, ⟨c, hc⟩, rfl⟩, (hback old).trans (hkeyed c old hc)⟩

theorem save_eq_some {reg : Registry} {order : List Sub} {bytes : Bytes} :
    reg.save order = some bytes ↔ order.Perm (values reg.subs) ∧ render order = bytes := by
  rw [Registry.save, Option.ite_none_right_eq_some, Option.some.injEq]

/-- A saved registry is loaded with the same subscriptions, in whatever order it was written. -/
theorem load_save {reg : Registry} (hkeyed : reg.Keyed) (hstorable : ∀ s ∈ values reg.subs, s.Storable)
    {order : List Sub} {bytes : Bytes} (h : reg.save order = some bytes) (c : Text) :
    (Registry.load (some bytes)).subs.lookup c = reg.subs.lookup c := by
  obtain ⟨hperm, rfl⟩ := save_eq_some.mp h
  have hlookup := lookup_load hkeyed id (fun s => rfl) hperm c
  rwa [List.map_id, Option.map_id, ← load_render fun s hs => hstorable s (hperm.mem_iff.mp hs)] at hlookup

/-- Rows in the older format lose nothing but the last error. -/
theorem load_aged {reg : Registry} (hkeyed : reg.Keyed) (hstorable : ∀ s ∈ values reg.subs, s.Storable)
    {order : List Sub} (hperm : order.Perm (values reg.subs)) (old : Sub → Bool) (c : Text) :
    (Registry.load (some (render_aged old order))).subs.lookup c = (reg.subs.lookup c).map (Sub.aged old) := by
  rw [load_render_aged old fun s hs => hstorable s (hperm.mem_iff.mp hs)]
  refine lookup_load hkeyed _ (fun s => ?_) hperm c
  unfold Sub.aged
  split <;> rfl

end yt_websub.subs
