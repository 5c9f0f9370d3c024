import YtWebsub.Resolve

open rust rust.utf8 rust.text
open yt_websub.resolve

namespace yt_websub.atom

structure Entry where
  kind : Text
  channel_id : Text
  video_id : Text
  title : Text
  ts : Text
deriving DecidableEq

def between (s start stop : Text) : Option Text := do
  let (_, rest) ← split_once start s
  let (inner, _) ← split_once stop rest
  some inner

/-- The namespaced tag first, then the bare one. -/
def tag (s name : Text) : Option Text :=
  (between s ("<yt:".toList ++ name ++ ['>']) ("</yt:".toList ++ name ++ ['>'])).or
    (between s ('<' :: name ++ ['>']) ("</".toList ++ name ++ ['>']))

def decode_entities (s : Text) : Text :=
  let s := replace s "&lt;".toList ['<']
  let s := replace s "&gt;".toList ['>']
  let s := replace s "&quot;".toList ['"']
  let s := replace s "&#39;".toList ['\'']
  let s := replace s "&apos;".toList ['\'']
  replace s "&amp;".toList ['&']

def is_video_id (s : Text) : Bool :=
  (encode s).length = 11 && (encode s).all isIdByte

def find_channel_id : Text → Option Text :=
  find_after ["<yt:channelId>UC", "/channel/UC", "channel_id=UC"]

/-- What one `at:deleted-entry` block yields. -/
def deletion (block : Text) : List Entry :=
  let video_id := ((between block "ref=\"yt:video:".toList ['"']).map trim).getD []
  if is_video_id video_id then
    [{ kind := "deleted".toList
       channel_id := (find_channel_id block).getD []
       video_id
       title := []
       ts := [] }]
  else []

/-- The first loop of `parse`. -/
def deletions : Nat → Text → List Entry
  | 0, _ => []
  | fuel + 1, rest =>
    match find "<at:deleted-entry".toList rest with
    | none => []
    | some pos =>
      let tail := rest.drop pos
      let block_end := ((find "</at:deleted-entry>".toList tail).map (· + 19)).getD tail.length
      deletion (tail.take block_end) ++ deletions fuel (tail.drop block_end)

/-- What one `entry` block yields. -/
def regular (block : Text) : List Entry :=
  let video_id := (tag block "videoId".toList).map trim
  let channel_id :=
    (((tag block "channelId".toList).map trim).filter is_channel_id).or (find_channel_id block)
  match video_id, channel_id with
  | some video_id, some channel_id =>
    if is_video_id video_id && is_channel_id channel_id then
      let title := ((tag block "title".toList).map fun s => decode_entities (trim s)).getD []
      let published := (tag block "published".toList).map trim
      let updated := (tag block "updated".toList).map trim
      let kind :=
        match published, updated with
        | some p, some u => if p ≠ u then "updated".toList else "new".toList
        | _, _ => "new".toList
      [{ kind, channel_id, video_id, title, ts := (updated.or published).getD [] }]
    else []
  | _, _ => []

/-- The second loop of `parse`. -/
def entries : Nat → Text → List Entry
  | 0, _ => []
  | fuel + 1, rest =>
    match find "<entry>".toList rest with
    | none => []
    | some pos =>
      let tail := rest.drop (pos + 7)
      let block_end := (find "</entry>".toList tail).getD tail.length
      let advance := block_end + 8
      regular (tail.take block_end) ++ (if tail.length ≤ advance then [] else entries fuel (tail.drop advance))

/-- Every iteration of either loop consumes text, so its length is fuel enough. -/
def parse (body : Text) : List Entry :=
  deletions body.length body ++ entries body.length body

theorem deletions_fuel {fuel fuel' : Nat} {rest : Text} (h : rest.length ≤ fuel) (h' : rest.length ≤ fuel') :
    deletions fuel rest = deletions fuel' rest := by
  induction fuel generalizing fuel' rest with
  | zero =>
    have hnil : rest = [] := List.length_eq_zero_iff.mp (Nat.le_zero.mp h)
    subst hnil
    cases fuel' <;> rfl
  | succ fuel ih =>
    cases fuel' with
    | zero =>
      have hnil : rest = [] := List.length_eq_zero_iff.mp (Nat.le_zero.mp h')
      subst hnil
      rfl
    | succ fuel' =>
      rw [deletions, deletions]
      cases hfind : find "<at:deleted-entry".toList rest with
      | none => rfl
      | some pos =>
        have hlen := find_add_length_le hfind
        have hmarker : ("<at:deleted-entry".toList).length = 17 := by decide
        have hshort : ∀ n, ((rest.drop pos).drop
            (((find "</at:deleted-entry>".toList (rest.drop pos)).map (· + 19)).getD (rest.drop pos).length)).length
              ≤ n ∨ n + 1 < rest.length := by
          intro n
          cases hend : find "</at:deleted-entry>".toList (rest.drop pos) <;>
            simp only [Option.map_none, Option.getD_none, Option.map_some, Option.getD_some, List.length_drop] <;>
            omega
        have hfuel := (hshort fuel).resolve_right (by omega)
        have hfuel' := (hshort fuel').resolve_right (by omega)
        simp only
        rw [ih hfuel hfuel']

theorem entries_fuel {fuel fuel' : Nat} {rest : Text} (h : rest.length ≤ fuel) (h' : rest.length ≤ fuel') :
    entries fuel rest = entries fuel' rest := by
  induction fuel generalizing fuel' rest with
  | zero =>
    have hnil : rest = [] := List.length_eq_zero_iff.mp (Nat.le_zero.mp h)
    subst hnil
    cases fuel' <;> rfl
  | succ fuel ih =>
    cases fuel' with
    | zero =>
      have hnil : rest = [] := List.length_eq_zero_iff.mp (Nat.le_zero.mp h')
      subst hnil
      rfl
    | succ fuel' =>
      rw [entries, entries]
      cases hfind : find "<entry>".toList rest with
      | none => rfl
      | some pos =>
        have hlen := find_add_length_le hfind
        have hmarker : ("<entry>".toList).length = 7 := by decide
        have hshort : ∀ n advance, n + 1 < rest.length ∨ ((rest.drop (pos + 7)).drop (advance + 8)).length ≤ n := by
          intro n advance
          simp only [List.length_drop]
          omega
        simp only
        rw [ih ((hshort fuel _).resolve_left (by omega)) ((hshort fuel' _).resolve_left (by omega))]

/-- The kinds of entry that `parse` makes. -/
def isKind (kind : Text) : Prop :=
  kind = "new".toList ∨ kind = "updated".toList ∨ kind = "deleted".toList

theorem alphabet_of_isKind {kind : Text} (h : isKind kind) : (encode kind).all isIdByte = true := by
  obtain rfl | rfl | rfl := h <;> decide

/-- The separator of the duplicate filter occurs neither in a video id nor in a kind. -/
theorem separator_free {video_id kind : Text} (hvideo : is_video_id video_id = true) (hkind : isKind kind) :
    '|' ∉ video_id ∧ '|' ∉ kind :=
  ⟨not_mem_of_all_isIdByte (Bool.and_eq_true_iff.mp hvideo).2 (by decide),
    not_mem_of_all_isIdByte (alphabet_of_isKind hkind) (by decide)⟩

theorem deletion_valid {block : Text} {e : Entry} (h : e ∈ deletion block) :
    is_video_id e.video_id = true ∧ isKind e.kind := by
  simp only [deletion] at h
  split at h
  · rename_i hvalid
    rw [List.mem_singleton] at h
    subst h
    exact ⟨hvalid, Or.inr (Or.inr rfl)⟩
  · cases h

theorem regular_valid {block : Text} {e : Entry} (h : e ∈ regular block) :
    is_video_id e.video_id = true ∧ isKind e.kind := by
  simp only [regular] at h
  split at h
  · split at h
    · rename_i hvalid
      rw [List.mem_singleton] at h
      subst h
      refine ⟨(Bool.and_eq_true_iff.mp hvalid).1, ?_⟩
      dsimp only
      split
      · split
        · exact Or.inr (Or.inl rfl)
        · exact Or.inl rfl
      · exact Or.inl rfl
    · cases h
  · cases h

/-- Every entry found is that of a block. -/
theorem mem_parse {body : Text} {e : Entry} (h : e ∈ parse body) :
    (∃ block, e ∈ deletion block) ∨ ∃ block, e ∈ regular block := by
  have hdeletions : ∀ fuel rest, e ∈ deletions fuel rest → ∃ block, e ∈ deletion block := by
    intro fuel
    induction fuel with
    | zero => intro rest h; cases h
    | succ fuel ih =>
      intro rest h
      rw [deletions] at h
      split at h
      · cases h
      · exact (List.mem_append.mp h).elim (fun h => ⟨_, h⟩) (ih _)
  have hentries : ∀ fuel rest, e ∈ entries fuel rest → ∃ block, e ∈ regular block := by
    intro fuel
    induction fuel with
    | zero => intro rest h; cases h
    | succ fuel ih =>
      intro rest h
      rw [entries] at h
      split at h
      · cases h
      · rcases List.mem_append.mp h with h | h
        · exact ⟨_, h⟩
        · split at h
          · cases h
          · exact ih _ h
  exact (List.mem_append.mp h).imp (hdeletions _ _) (hentries _ _)

/-- Every entry found has a well-formed video id and one of the three kinds. -/
theorem parse_valid {body : Text} {e : Entry} (h : e ∈ parse body) :
    is_video_id e.video_id = true ∧ isKind e.kind := by
  obtain ⟨block, hblock⟩ | ⟨block, hblock⟩ := mem_parse h
  · exact deletion_valid hblock
  · exact regular_valid hblock

end yt_websub.atom
