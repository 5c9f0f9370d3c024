import YtWebsub.Atom.Entities
import YtWebsub.Base.Markup

open rust.utf8 rust.text
open yt_websub.resolve
open markup

namespace yt_websub.atom.feed

/-- White space between elements. -/
abbrev Blank := { s : Text // ∀ c ∈ s, c ∈ [' ', '\t', '\r', '\n'] }

def element (name content : Text) : Text :=
  '<' :: name ++ '>' :: content ++ '<' :: '/' :: name ++ ['>']

/-- A new or updated video as the hub announces it. -/
structure Announcement where
  video_id : { s : Text // is_video_id s = true }
  channel_id : { s : Text // is_channel_id s = true }
  title : Escaped
  author : Escaped
  published : { s : Text // '<' ∉ s }
  updated : { s : Text // '<' ∉ s }
  blank : Nat → Blank

def Announcement.text (a : Announcement) : Text :=
  element "entry".toList <|
    a.blank 0 ++ element "id".toList ("yt:video:".toList ++ a.video_id) ++
    a.blank 1 ++ element "yt:videoId".toList a.video_id ++
    a.blank 2 ++ element "yt:channelId".toList a.channel_id ++
    a.blank 3 ++ element "title".toList a.title.text ++
    a.blank 4 ++ element "author".toList
      (a.blank 5 ++ element "name".toList a.author.text ++ a.blank 6) ++
    a.blank 7 ++ element "published".toList a.published ++
    a.blank 8 ++ element "updated".toList a.updated ++
    a.blank 9

/-- A deleted video as the hub announces it. -/
structure Tombstone where
  video_id : { s : Text // is_video_id s = true }
  since : { s : Text // '<' ∉ s ∧ '"' ∉ s }
  name : Escaped
  uri : Escaped
  blank : Nat → Blank

def Tombstone.text (d : Tombstone) : Text :=
  '<' :: "at:deleted-entry ref=\"yt:video:".toList ++ d.video_id ++ "\" when=\"".toList ++ d.since ++ "\">".toList ++
    d.blank 0 ++ "<link href=\"https://www.youtube.com/watch?v=".toList ++ d.video_id ++ "\"/>".toList ++
    d.blank 1 ++ element "at:by".toList
      (d.blank 2 ++ element "name".toList d.name.text ++
        d.blank 3 ++ element "uri".toList d.uri.text ++ d.blank 4) ++
    d.blank 5 ++ "</at:deleted-entry>".toList

inductive Record where
  | announcement (a : Announcement)
  | tombstone (d : Tombstone)

def Record.text : Record → Text
  | .announcement a => a.text
  | .tombstone d => d.text

/-- What stands between a `<` outside of the records and the next one. -/
abbrev Foreign := { s : Text // '<' ∉ s ∧ ¬ "entry>".toList <+: s ∧ ¬ "at:deleted-entry".toList <+: s }

/-- A feed: records with white space after them, in an element of the hub's choice. -/
structure Feed where
  lead : { s : Text // '<' ∉ s }
  opening : List Foreign
  records : List (Record × Blank)
  closing : List Foreign

def Feed.text (f : Feed) : Text :=
  join '<' f.lead (f.opening.map Subtype.val) ++ f.records.flatMap (fun r => r.1.text ++ r.2) ++
    join '<' [] (f.closing.map Subtype.val)

/-- The record of a video as the feed announced it. White space is never escaped, so that
it does not matter whether a title is trimmed before or after. -/
def Announcement.entry (a : Announcement) : Entry where
  kind := if trim a.published ≠ trim a.updated then "updated".toList else "new".toList
  channel_id := a.channel_id
  video_id := a.video_id
  title := trim a.title.value
  ts := trim a.updated

/-- The entry records the deletion. -/
def Tombstone.Recorded (d : Tombstone) (e : Entry) : Prop :=
  e.kind = "deleted".toList ∧ e.video_id = d.video_id ∧ e.title = [] ∧ e.ts = []

def Record.announcement? : Record → Option Announcement
  | .announcement a => some a
  | .tombstone _ => none

def Record.tombstone? : Record → Option Tombstone
  | .announcement _ => none
  | .tombstone d => some d

/-- The tags inside of an entry, each with what follows it. -/
def Announcement.inner (a : Announcement) : List (Text × Text) :=
  [("id".toList, "yt:video:".toList ++ a.video_id), ('/' :: "id".toList, a.blank 1),
    ("yt:videoId".toList, a.video_id), ('/' :: "yt:videoId".toList, a.blank 2),
    ("yt:channelId".toList, a.channel_id), ('/' :: "yt:channelId".toList, a.blank 3),
    ("title".toList, a.title.text), ('/' :: "title".toList, a.blank 4),
    ("author".toList, a.blank 5), ("name".toList, a.author.text), ('/' :: "name".toList, a.blank 6),
    ('/' :: "author".toList, a.blank 7),
    ("published".toList, a.published), ('/' :: "published".toList, a.blank 8),
    ("updated".toList, a.updated), ('/' :: "updated".toList, a.blank 9)]

def Announcement.tags (a : Announcement) (after : Text) : List (Text × Text) :=
  ("entry".toList, (a.blank 0).val) :: a.inner ++ [('/' :: "entry".toList, after)]

theorem Announcement.text_append (a : Announcement) (after : Text) :
    a.text ++ after = join '<' [] ((a.tags after).map (named '>')) := by
  simp only [Announcement.text, element, Announcement.tags, Announcement.inner, join, named, List.append_assoc,
    List.cons_append, List.nil_append, List.map_cons, List.map_nil, List.flatMap_cons, List.flatMap_nil,
    List.append_nil]

/-- The tags inside of a deletion. -/
def Tombstone.inner (d : Tombstone) : List (Text × Text) :=
  [("link href=\"https://www.youtube.com/watch?v=".toList ++ d.video_id ++ "\"/".toList, d.blank 1),
    ("at:by".toList, d.blank 2), ("name".toList, d.name.text), ('/' :: "name".toList, d.blank 3),
    ("uri".toList, d.uri.text), ('/' :: "uri".toList, d.blank 4), ('/' :: "at:by".toList, d.blank 5)]

/-- What follows the marker of a deletion, up to the end of its tag. -/
def Tombstone.attributes (d : Tombstone) : Text :=
  ' ' :: "ref=\"yt:video:".toList ++ d.video_id ++ "\" when=\"".toList ++ d.since ++ ['"']

def Tombstone.tags (d : Tombstone) (after : Text) : List (Text × Text) :=
  ("at:deleted-entry".toList ++ d.attributes, (d.blank 0).val) :: d.inner ++ [("/at:deleted-entry".toList, after)]

theorem Tombstone.text_append (d : Tombstone) (after : Text) :
    d.text ++ after = join '<' [] ((d.tags after).map (named '>')) := by
  have hopen : "at:deleted-entry ref=\"yt:video:".toList =
      "at:deleted-entry".toList ++ ' ' :: "ref=\"yt:video:".toList := by simp
  have hquote : "\">".toList = ['"', '>'] := by simp
  have hlink : "<link href=\"https://www.youtube.com/watch?v=".toList =
      '<' :: "link href=\"https://www.youtube.com/watch?v=".toList := by simp
  have hempty : "\"/>".toList = "\"/".toList ++ ['>'] := by simp
  have hend : "</at:deleted-entry>".toList = '<' :: ("/at:deleted-entry".toList ++ ['>']) := by simp
  simp only [hopen, hquote, hlink, hempty, hend, Tombstone.text, element, Tombstone.tags, Tombstone.inner,
    Tombstone.attributes, join, named, List.append_assoc, List.cons_append, List.nil_append, List.map_cons,
    List.map_nil, List.flatMap_cons, List.flatMap_nil, List.append_nil]

theorem not_mem_blank (b : Blank) {c : Char} (hc : c ∉ [' ', '\t', '\r', '\n']) : c ∉ b.val :=
  fun hmem => hc (b.property c hmem)

theorem not_mem_escaped (s : Escaped) : '<' ∉ s.text := by
  intro hmem
  obtain ⟨p, _, hp⟩ := List.mem_flatMap.mp hmem
  cases p with
  | plain c => exact c.property.2 (List.mem_singleton.mp hp).symm
  | entity i =>
    have hentities : ∀ i : Fin entities.length, '<' ∉ (entities.get i).1 := by decide
    exact hentities i hp

theorem alphabet_of_video_id (s : { s : Text // is_video_id s = true }) : (encode s.val).all isIdByte = true :=
  (Bool.and_eq_true_iff.mp s.property).2

/-- The names of the tags inside of an entry. -/
def innerNames : List Text :=
  ["id", "/id", "yt:videoId", "/yt:videoId", "yt:channelId", "/yt:channelId", "title", "/title", "author", "name",
    "/name", "/author", "published", "/published", "updated", "/updated"].map String.toList

theorem Announcement.names (a : Announcement) : a.inner.map Prod.fst = innerNames := by
  simp [Announcement.inner, innerNames]

theorem Announcement.wellNamed (a : Announcement) : WellNamed '<' '>' a.inner := by
  have hblank : ∀ i, '<' ∉ (a.blank i).val := fun i => not_mem_blank _ (by decide)
  have hvideo := not_mem_of_all_isIdByte (alphabet_of_video_id a.video_id) (c := '<') (by decide)
  have hchannel := not_mem_of_all_isIdByte (is_channel_id_alphabet a.channel_id.property) (c := '<') (by decide)
  have hid : '<' ∉ "yt:video:".toList ++ a.video_id.val := by simp [hvideo]
  have htitle := not_mem_escaped a.title
  have hauthor := not_mem_escaped a.author
  refine ⟨?_, ?_⟩
  · rw [a.names]
    decide +kernel
  · simp only [Announcement.inner, List.map_cons, List.map_nil, List.forall_mem_cons, List.not_mem_nil,
      false_imp_iff, implies_true, and_true]
    exact ⟨hid, hblank 1, hvideo, hblank 2, hchannel, hblank 3, htitle, hblank 4, hblank 5, hauthor, hblank 6,
      hblank 7, a.published.property, hblank 8, a.updated.property, hblank 9⟩

/-- The text between a tag and its closing tag, which follows it. -/
theorem between_named {lead name inner after : Text} {before rest : List (Text × Text)} (hlead : '<' ∉ lead)
    (h : WellNamed '<' '>' (before ++ (name, inner) :: ('/' :: name, after) :: rest))
    (hother : name ∉ before.map Prod.fst) :
    between (join '<' lead ((before ++ (name, inner) :: ('/' :: name, after) :: rest).map (named '>')))
      ('<' :: (name ++ ['>'])) ('<' :: ('/' :: name ++ ['>'])) = some inner := by
  have hname := h.names name (by simp)
  have hinner := h.contents inner (by simp)
  have hbefore := (h.of_subset (List.subset_append_left before _)).passed (by decide) hname.2 hother
  have hmark : '<' ∉ name ++ ['>'] := by simp [hname.1]
  have hmark' : '<' ∉ '/' :: name ++ ['>'] := by simp [hname.1]
  have hpiece : ∀ name content : Text, named '>' (name, content) = (name ++ ['>']) ++ content := fun name content => by
    simp [named]
  have hsecond := split_once_join hmark' hinner (fun _ h => absurd h List.not_mem_nil : Passed '<' _ []) after
    (rest.map (named '>'))
  rw [List.nil_append] at hsecond
  rw [between, List.map_append, List.map_cons, List.map_cons, hpiece, hpiece, split_once_join hmark hlead hbefore,
    Option.bind_eq_bind, Option.bind_some]
  dsimp only
  rw [hsecond, join_nil]
  rfl

theorem between_absent {lead name : Text} {tags : List (Text × Text)} (hlead : '<' ∉ lead) (h : WellNamed '<' '>' tags)
    (hname : '<' ∉ name ∧ '>' ∉ name) (hother : name ∉ tags.map Prod.fst) (stop : Text) :
    between (join '<' lead (tags.map (named '>'))) ('<' :: (name ++ ['>'])) stop = none := by
  have hmark : '<' ∉ name ++ ['>'] := by simp [hname.1]
  rw [between, split_once_join_none hmark hlead (h.passed (by decide) hname.2 hother)]
  rfl

/-- How `tag` looks for a name: in its namespace, then bare. -/
theorem tag_eq (s name : Text) :
    tag s name =
      (between s ('<' :: ("yt:".toList ++ name ++ ['>'])) ('<' :: ('/' :: ("yt:".toList ++ name) ++ ['>']))).or
        (between s ('<' :: (name ++ ['>'])) ('<' :: ('/' :: name ++ ['>']))) := by
  simp [tag]

section Fields

variable (a : Announcement)

/-- The inside of the entry as the extractor cuts it out. -/
def Announcement.block : Text :=
  join '<' (a.blank 0) (a.inner.map (named '>'))

theorem Announcement.not_mem_lead : '<' ∉ (a.blank 0).val :=
  not_mem_blank _ (by decide)

theorem Announcement.tag_bare {name inner after : Text} (before rest : List (Text × Text))
    (hinner : a.inner = before ++ (name, inner) :: ('/' :: name, after) :: rest) (hother : name ∉ before.map Prod.fst)
    (hbare : "yt:".toList ++ name ∉ innerNames) (hname : '<' ∉ name ∧ '>' ∉ name) :
    tag a.block name = some inner := by
  have h := a.wellNamed
  have hnamespace : '<' ∉ "yt:".toList ++ name ∧ '>' ∉ "yt:".toList ++ name := by simp [hname]
  rw [tag_eq, Announcement.block, between_absent a.not_mem_lead h hnamespace (a.names ▸ hbare), Option.none_or]
  rw [hinner] at h ⊢
  exact between_named a.not_mem_lead h hother

theorem Announcement.tag_namespaced {name full inner after : Text} (before rest : List (Text × Text))
    (hfull : full = "yt:".toList ++ name)
    (hinner : a.inner = before ++ (full, inner) :: ('/' :: full, after) :: rest) (hother : full ∉ before.map Prod.fst) :
    tag a.block name = some inner := by
  have h := a.wellNamed
  rw [tag_eq, Announcement.block, ← hfull]
  rw [hinner] at h ⊢
  rw [between_named a.not_mem_lead h hother, Option.some_or]

theorem Announcement.tag_video_id : tag a.block "videoId".toList = some a.video_id.val := by
  refine a.tag_namespaced (a.inner.take 2) (a.inner.drop 4) (by simp) rfl ?_
  simp [Announcement.inner]

theorem Announcement.tag_channel_id : tag a.block "channelId".toList = some a.channel_id.val := by
  refine a.tag_namespaced (a.inner.take 4) (a.inner.drop 6) (by simp) rfl ?_
  simp [Announcement.inner]

theorem Announcement.tag_title : tag a.block "title".toList = some a.title.text := by
  refine a.tag_bare (a.inner.take 6) (a.inner.drop 8) rfl ?_ ?_ ?_
  · simp [Announcement.inner]
  · decide +kernel
  · decide +kernel

theorem Announcement.tag_published : tag a.block "published".toList = some a.published.val := by
  refine a.tag_bare (a.inner.take 12) (a.inner.drop 14) rfl ?_ ?_ ?_
  · simp [Announcement.inner]
  · decide +kernel
  · decide +kernel

theorem Announcement.tag_updated : tag a.block "updated".toList = some a.updated.val := by
  refine a.tag_bare (a.inner.take 14) (a.inner.drop 16) rfl ?_ ?_ ?_
  · simp [Announcement.inner]
  · decide +kernel
  · decide +kernel

end Fields

/-- Ids contain no white space. -/
theorem trim_id {s : Text} (h : (encode s).all isIdByte = true) : trim s = s := by
  refine trim_of_not_whitespace fun c hc => ?_
  obtain ⟨hascii, hid⟩ := isIdByte_of_mem h hc
  have hspace : ∀ n < 0x80, isIdByte (UInt8.ofNat n) = true → isWhitespace (Char.ofNat n) = false := by decide +kernel
  have hc := hspace c.toNat hascii hid
  rwa [Char.ofNat_toNat] at hc

/-- An entry block yields the record of its video. -/
theorem Announcement.regular_block (a : Announcement) : regular a.block = [a.entry] := by
  have hvideo := trim_id (alphabet_of_video_id a.video_id)
  have hchannel := trim_id (is_channel_id_alphabet a.channel_id.property)
  simp only [regular, a.tag_video_id, a.tag_channel_id, a.tag_title, a.tag_published, a.tag_updated, Option.map_some,
    hvideo, hchannel, Option.filter_some_pos a.channel_id.property, Option.some_or, a.video_id.property,
    a.channel_id.property, Bool.and_self, if_true, Option.getD_some, decode_entities_trim]
  rfl

section Loops

/-- An iteration of the second loop. -/
theorem entries_block {rest front tail block after : Text}
    (hopen : split_once ('<' :: ("entry".toList ++ ['>'])) rest = some (front, tail))
    (hclose : split_once ('<' :: ("/entry".toList ++ ['>'])) tail = some (block, after)) :
    entries rest.length rest = regular block ++ entries after.length after := by
  have hfirst := split_once_eq_some hopen
  have hsecond := split_once_eq_some hclose
  have htail : rest.drop (front.length + 7) = tail := by
    rw [hfirst.1, ← List.append_assoc]
    exact List.drop_left' (by simp)
  have hblock : tail.take block.length = block := by
    rw [hsecond.1]
    exact List.take_left
  have hafter : tail.drop (block.length + 8) = after := by
    rw [hsecond.1, ← List.append_assoc]
    exact List.drop_left' (by simp)
  have hopen' : find "<entry>".toList rest = some front.length := by simpa using hfirst.2
  have hclose' : find "</entry>".toList tail = some block.length := by simpa using hsecond.2
  obtain ⟨n, hn⟩ : ∃ n, rest.length = n + 1 := Nat.exists_eq_add_one.mpr (by rw [hfirst.1]; simp)
  have hshorter : after.length ≤ n := by
    have hlength := congrArg List.length hfirst.1
    rw [hsecond.1] at hlength
    simp only [List.length_append, List.length_cons] at hlength
    omega
  rw [hn, entries, hopen']
  dsimp only
  rw [htail, hclose', Option.getD_some, hblock, hafter]
  split
  · rename_i hend
    rw [← hafter, List.drop_eq_nil_of_le hend]
    rfl
  · rw [entries_fuel hshorter le_rfl]

theorem entries_none {rest : Text} (h : split_once ('<' :: ("entry".toList ++ ['>'])) rest = none) (fuel : Nat) :
    entries fuel rest = [] := by
  have hfind : find "<entry>".toList rest = none := by simpa [split_once] using h
  cases fuel with
  | zero => rfl
  | succ fuel => rw [entries, hfind]

/-- An iteration of the first loop. -/
theorem deletions_block {rest front tail block after : Text}
    (hopen : split_once ('<' :: "at:deleted-entry".toList) rest = some (front, tail))
    (hclose : split_once ('<' :: ("/at:deleted-entry".toList ++ ['>'])) ('<' :: "at:deleted-entry".toList ++ tail) =
      some (block, after)) :
    deletions rest.length rest =
      deletion (block ++ '<' :: ("/at:deleted-entry".toList ++ ['>'])) ++ deletions after.length after := by
  have hfirst := split_once_eq_some hopen
  have hsecond := split_once_eq_some hclose
  have htail : rest.drop front.length = '<' :: "at:deleted-entry".toList ++ tail := by
    rw [hfirst.1]
    exact List.drop_left
  have hlength : block.length + 19 = (block ++ '<' :: ("/at:deleted-entry".toList ++ ['>'])).length := by simp
  have hopen' : find "<at:deleted-entry".toList rest = some front.length := by simpa using hfirst.2
  have hclose' : find "</at:deleted-entry>".toList ('<' :: "at:deleted-entry".toList ++ tail) = some block.length := by
    simpa using hsecond.2
  obtain ⟨n, hn⟩ : ∃ n, rest.length = n + 1 := Nat.exists_eq_add_one.mpr (by rw [hfirst.1]; simp)
  have hshorter : after.length ≤ n := by
    have hlength := congrArg List.length hfirst.1
    have hlength' := congrArg List.length hsecond.1
    simp only [List.length_append, List.length_cons] at hlength hlength'
    omega
  rw [hn, deletions, hopen']
  dsimp only
  rw [htail, hclose', Option.map_some, Option.getD_some, hlength, hsecond.1, ← List.append_assoc, List.take_left,
    List.drop_left, deletions_fuel hshorter le_rfl]

theorem deletions_none {rest : Text} (h : split_once ('<' :: "at:deleted-entry".toList) rest = none) (fuel : Nat) :
    deletions fuel rest = [] := by
  have hfind : find "<at:deleted-entry".toList rest = none := by simpa [split_once] using h
  cases fuel with
  | zero => rfl
  | succ fuel => rw [deletions, hfind]

end Loops

/-- The pieces of a record, with the white space after it. -/
def Record.pieces (r : Record × Blank) : List Text :=
  match r.1 with
  | .announcement a => (a.tags r.2).map (named '>')
  | .tombstone d => (d.tags r.2).map (named '>')

theorem Record.text_append (r : Record × Blank) : r.1.text ++ r.2.val = join '<' [] (Record.pieces r) := by
  obtain ⟨a | d, after⟩ := r
  · exact a.text_append after
  · exact d.text_append after

theorem Feed.text_eq (f : Feed) :
    f.text = join '<' f.lead
      (f.opening.map Subtype.val ++ f.records.flatMap Record.pieces ++ f.closing.map Subtype.val) := by
  have hrecords : f.records.flatMap (fun r => r.1.text ++ r.2.val) = join '<' [] (f.records.flatMap Record.pieces) := by
    rw [join, List.nil_append, List.flatMap_assoc]
    exact List.flatMap_congr fun r _ => Record.text_append r
  rw [Feed.text, hrecords, join_append, join_append]

theorem Announcement.passed_close (a : Announcement) :
    Passed '<' ("/entry".toList ++ ['>']) (a.inner.map (named '>')) := by
  refine a.wellNamed.passed (by decide) (by decide) ?_
  rw [a.names]
  decide +kernel

/-- No deletion begins inside of an announcement. -/
theorem Announcement.passed_deleted (a : Announcement) (after : Blank) :
    Passed '<' "at:deleted-entry".toList ((a.tags after).map (named '>')) := by
  have h : WellNamed '<' '>' (a.tags after) := by
    refine ⟨?_, ?_⟩
    · simp only [Announcement.tags, List.map_cons, List.map_append, List.cons_append, a.names]
      decide +kernel
    · simp only [Announcement.tags, List.map_cons, List.map_append, List.map_nil, List.cons_append,
        List.forall_mem_cons, List.forall_mem_append]
      exact ⟨a.not_mem_lead, a.wellNamed.contents, by simpa using not_mem_blank after (by decide)⟩
  intro piece hpiece
  obtain ⟨tag, htag, rfl⟩ := List.mem_map.mp hpiece
  refine ⟨h.not_mem_named (by decide) htag, ?_⟩
  have hnames : ∀ name ∈ "entry".toList :: innerNames ++ ['/' :: "entry".toList],
      ¬ "at:deleted-entry".toList <+: name := by
    decide +kernel
  rw [prefix_named_of_not_mem (by decide)]
  refine hnames tag.1 ?_
  have hname : tag.1 ∈ (a.tags after).map Prod.fst := List.mem_map_of_mem htag
  simpa only [Announcement.tags, List.map_cons, List.map_append, List.map_nil, List.cons_append, a.names] using hname

theorem Tombstone.wellNamed (d : Tombstone) (after : Blank) :
    WellNamed '<' '>' (d.inner ++ [("/at:deleted-entry".toList, after.val)]) := by
  have hblank : ∀ i, '<' ∉ (d.blank i).val := fun i => not_mem_blank _ (by decide)
  have hvideo := not_mem_of_all_isIdByte (alphabet_of_video_id d.video_id) (c := '<') (by decide)
  have hvideo' := not_mem_of_all_isIdByte (alphabet_of_video_id d.video_id) (c := '>') (by decide)
  refine ⟨?_, ?_⟩
  · simp [Tombstone.inner, hvideo, hvideo']
  · simp only [Tombstone.inner, List.map_cons, List.map_nil, List.cons_append, List.nil_append, List.forall_mem_cons,
      List.not_mem_nil, false_imp_iff, implies_true, and_true]
    exact ⟨hblank 1, hblank 2, not_mem_escaped d.name, hblank 3, not_mem_escaped d.uri, hblank 4, hblank 5,
      not_mem_blank after (by decide)⟩

/-- The piece that opens a deletion. -/
def Tombstone.head (d : Tombstone) : Text :=
  named '>' ("at:deleted-entry".toList ++ d.attributes, (d.blank 0).val)

theorem Tombstone.not_mem_head (d : Tombstone) : '<' ∉ d.head := by
  have hvideo := not_mem_of_all_isIdByte (alphabet_of_video_id d.video_id) (c := '<') (by decide)
  have hblank : '<' ∉ (d.blank 0).val := not_mem_blank _ (by decide)
  simp [Tombstone.head, named, Tombstone.attributes, hvideo, hblank, d.since.property.1]

/-- Nothing that begins otherwise than the deletion itself is found in it. -/
theorem Tombstone.passed (d : Tombstone) (after : Blank) {name : Text} (hfirst : ¬ name <+: d.head)
    (hname : '>' ∉ name) (hother : name ∉ (d.inner ++ [("/at:deleted-entry".toList, after.val)]).map Prod.fst) :
    Passed '<' (name ++ ['>']) ((d.tags after).map (named '>')) := by
  intro piece hpiece
  obtain rfl | hpiece := List.mem_cons.mp hpiece
  · exact ⟨d.not_mem_head, fun h => hfirst ((List.prefix_append name ['>']).trans h)⟩
  · exact (d.wellNamed after).passed (by decide) hname hother piece hpiece

/-- No entry begins inside of a deletion. -/
theorem Tombstone.passed_entry (d : Tombstone) (after : Blank) :
    Passed '<' ("entry".toList ++ ['>']) ((d.tags after).map (named '>')) := by
  refine d.passed after ?_ (by decide) ?_
  · simp [Tombstone.head, named]
  · simp [Tombstone.inner]

theorem Tombstone.passed_close (d : Tombstone) :
    Passed '<' ("/at:deleted-entry".toList ++ ['>']) (d.head :: d.inner.map (named '>')) := by
  intro piece hpiece
  obtain rfl | hpiece := List.mem_cons.mp hpiece
  · exact ⟨d.not_mem_head, by simp [Tombstone.head, named]⟩
  · have h := (d.wellNamed ⟨[], fun _ h => absurd h List.not_mem_nil⟩).of_subset (List.subset_append_left d.inner _)
    exact h.passed (by decide) (by decide) (by simp [Tombstone.inner]) piece hpiece

/-- The video id of a deletion stands in its first attribute. -/
theorem Tombstone.between_ref (d : Tombstone) (after : Text) :
    between (d.text ++ after) "ref=\"yt:video:".toList ['"'] = some d.video_id.val := by
  have hquote := not_mem_of_all_isIdByte (alphabet_of_video_id d.video_id) (c := '"') (by decide)
  obtain ⟨more, hmore⟩ : ∃ more, d.text ++ after =
      join 'r' "<at:deleted-ent".toList
        (["y ".toList] ++ ("ef=\"yt:video:".toList ++ (d.video_id.val ++ '"' :: more)) :: []) := by
    refine ⟨" when=\"".toList ++ d.since ++ '"' :: '>' :: (d.blank 0).val ++
      (d.inner.map (named '>')).flatMap ('<' :: ·) ++ "</at:deleted-entry>".toList ++ after, ?_⟩
    rw [d.text_append]
    simp [join, Tombstone.tags, named, Tombstone.attributes]
  have hbefore : Passed 'r' "ef=\"yt:video:".toList ["y ".toList] := by simp [Passed]
  have hopen := split_once_join (by decide) (by decide : 'r' ∉ "<at:deleted-ent".toList) hbefore
    (d.video_id.val ++ '"' :: more) []
  have hpattern : "ref=\"yt:video:".toList = 'r' :: "ef=\"yt:video:".toList := by simp
  have hhere := split_once_append_self ['"'] more
  rw [List.singleton_append] at hhere
  rw [between, hmore, hpattern, hopen, Option.bind_eq_bind, Option.bind_some]
  dsimp only
  rw [join_nil, split_once_lead hquote, hhere, Option.map_some]
  simp

/-- A deletion yields its record. -/
theorem Tombstone.deletion_text (d : Tombstone) : ∃ e, deletion d.text = [e] ∧ d.Recorded e := by
  have hvideo := trim_id (alphabet_of_video_id d.video_id)
  have hbetween := d.between_ref []
  rw [List.append_nil] at hbetween
  simp only [deletion, hbetween, Option.map_some, Option.getD_some, hvideo, d.video_id.property, if_true]
  exact ⟨_, rfl, rfl, rfl, rfl, rfl⟩

/-- The second loop finds the announcements, each where it stands. -/
theorem entries_records {records : List (Record × Blank)} {lead : Text} {before closing : List Text}
    (hlead : '<' ∉ lead) (hbefore : Passed '<' ("entry".toList ++ ['>']) before)
    (hclosing : Passed '<' ("entry".toList ++ ['>']) closing) :
    entries (join '<' lead (before ++ records.flatMap Record.pieces ++ closing)).length
        (join '<' lead (before ++ records.flatMap Record.pieces ++ closing)) =
      (records.filterMap fun r => r.1.announcement?).map Announcement.entry := by
  have hmark : '<' ∉ "entry".toList ++ ['>'] := by decide
  induction records generalizing lead before with
  | nil =>
    rw [List.flatMap_nil, List.append_nil]
    refine entries_none (split_once_join_none hmark hlead fun piece hpiece => ?_) _
    exact (List.mem_append.mp hpiece).elim (hbefore piece) (hclosing piece)
  | cons r records ih =>
    obtain ⟨a | d, after⟩ := r
    · have hpieces : before ++ ((Record.announcement a, after) :: records).flatMap Record.pieces ++ closing =
          before ++ (("entry".toList ++ ['>']) ++ (a.blank 0).val) :: (a.inner.map (named '>') ++
            (("/entry".toList ++ ['>']) ++ after.val) :: ([] ++ records.flatMap Record.pieces ++ closing)) := by
        simp [Record.pieces, Announcement.tags, named]
      have hopen := split_once_join hmark hlead hbefore (a.blank 0).val (a.inner.map (named '>') ++
        (("/entry".toList ++ ['>']) ++ after.val) :: ([] ++ records.flatMap Record.pieces ++ closing))
      have hclose := split_once_join (by decide) a.not_mem_lead a.passed_close after.val
        ([] ++ records.flatMap Record.pieces ++ closing)
      rw [hpieces, entries_block hopen hclose,
        ih (not_mem_blank after (by decide)) (fun _ h => absurd h List.not_mem_nil)]
      change regular a.block ++ _ = _
      rw [a.regular_block]
      rfl
    · have hpassed : Passed '<' ("entry".toList ++ ['>']) (before ++ (d.tags after).map (named '>')) :=
        fun piece hpiece => (List.mem_append.mp hpiece).elim (hbefore piece) (d.passed_entry after piece)
      have hrest := ih hlead hpassed
      rw [List.append_assoc before] at hrest
      exact hrest

theorem deletions_records {records : List (Record × Blank)} {lead : Text} {before closing : List Text}
    (hlead : '<' ∉ lead) (hbefore : Passed '<' "at:deleted-entry".toList before)
    (hclosing : Passed '<' "at:deleted-entry".toList closing) :
    List.Forall₂ Tombstone.Recorded (records.filterMap fun r => r.1.tombstone?)
      (deletions (join '<' lead (before ++ records.flatMap Record.pieces ++ closing)).length
        (join '<' lead (before ++ records.flatMap Record.pieces ++ closing))) := by
  have hmark : '<' ∉ "at:deleted-entry".toList := by decide
  induction records generalizing lead before with
  | nil =>
    rw [List.flatMap_nil, List.append_nil, deletions_none]
    · exact List.Forall₂.nil
    · refine split_once_join_none hmark hlead fun piece hpiece => ?_
      exact (List.mem_append.mp hpiece).elim (hbefore piece) (hclosing piece)
  | cons r records ih =>
    obtain ⟨a | d, after⟩ := r
    · have hpassed : Passed '<' "at:deleted-entry".toList (before ++ (a.tags after).map (named '>')) :=
        fun piece hpiece => (List.mem_append.mp hpiece).elim (hbefore piece) (a.passed_deleted after piece)
      have hrest := ih hlead hpassed
      rw [List.append_assoc before] at hrest
      exact hrest
    · have hpieces : before ++ ((Record.tombstone d, after) :: records).flatMap Record.pieces ++ closing =
          before ++ ("at:deleted-entry".toList ++ (d.attributes ++ '>' :: (d.blank 0).val)) ::
            (d.inner.map (named '>') ++ (("/at:deleted-entry".toList ++ ['>']) ++ after.val) ::
              ([] ++ records.flatMap Record.pieces ++ closing)) := by
        simp [Record.pieces, Tombstone.tags, named]
      have hopen := split_once_join hmark hlead hbefore (d.attributes ++ '>' :: (d.blank 0).val)
        (d.inner.map (named '>') ++ (("/at:deleted-entry".toList ++ ['>']) ++ after.val) ::
          ([] ++ records.flatMap Record.pieces ++ closing))
      have hclose := split_once_join (by decide) List.not_mem_nil d.passed_close after.val
        ([] ++ records.flatMap Record.pieces ++ closing)
      have hhead : '<' :: "at:deleted-entry".toList ++ join '<' (d.attributes ++ '>' :: (d.blank 0).val)
          (d.inner.map (named '>') ++ (("/at:deleted-entry".toList ++ ['>']) ++ after.val) ::
            ([] ++ records.flatMap Record.pieces ++ closing)) =
          join '<' [] ((d.head :: d.inner.map (named '>')) ++ (("/at:deleted-entry".toList ++ ['>']) ++ after.val) ::
            ([] ++ records.flatMap Record.pieces ++ closing)) := by
        simp [join, Tombstone.head, named]
      have hblock : join '<' [] (d.head :: d.inner.map (named '>')) ++ '<' :: ("/at:deleted-entry".toList ++ ['>']) =
          d.text := by
        rw [← List.append_nil d.text, d.text_append]
        simp [join, Tombstone.head, Tombstone.tags, named]
      obtain ⟨e, he, hrecorded⟩ := d.deletion_text
      rw [← hhead] at hclose
      rw [hpieces, deletions_block hopen hclose, hblock, he]
      exact List.Forall₂.cons hrecorded
        (ih (not_mem_blank after (by decide)) (fun _ h => absurd h List.not_mem_nil))

theorem Foreign.passed (pieces : List Foreign) :
    Passed '<' ("entry".toList ++ ['>']) (pieces.map Subtype.val) ∧
      Passed '<' "at:deleted-entry".toList (pieces.map Subtype.val) := by
  have hentry : "entry>".toList = "entry".toList ++ ['>'] := by simp
  refine ⟨fun piece hpiece => ?_, fun piece hpiece => ?_⟩ <;> obtain ⟨foreign, _, rfl⟩ := List.mem_map.mp hpiece
  · exact ⟨foreign.property.1, hentry ▸ foreign.property.2.1⟩
  · exact ⟨foreign.property.1, foreign.property.2.2⟩

/-- Every feed is read back: its deletions in order, then its videos in order. -/
theorem parse_feed (f : Feed) :
    ∃ deleted, parse f.text = deleted ++ (f.records.filterMap fun r => r.1.announcement?).map Announcement.entry ∧
      List.Forall₂ Tombstone.Recorded (f.records.filterMap fun r => r.1.tombstone?) deleted := by
  obtain ⟨hopening, hopening'⟩ := Foreign.passed f.opening
  obtain ⟨hclosing, hclosing'⟩ := Foreign.passed f.closing
  refine ⟨deletions f.text.length f.text, ?_, ?_⟩
  · rw [parse, f.text_eq, entries_records f.lead.property hopening hclosing]
  · rw [f.text_eq]
    exact deletions_records f.lead.property hopening' hclosing'

end yt_websub.atom.feed
