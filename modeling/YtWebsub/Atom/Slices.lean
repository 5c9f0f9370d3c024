import YtWebsub.Atom
import YtWebsub.Base.Slice

open rust.utf8 rust.text
open yt_websub.resolve

/-! The extractor once more, on the byte offsets that the source computes with. A slice
that would panic stops the run. -/

namespace yt_websub.atom.sliced

def between (s start stop : Text) : Except Stop (Option Text) :=
  match find_bytes start s with
  | none => .ok none
  | some pos => do
    let i := pos + size start
    let rest ← slice s i (size s)
    match find_bytes stop rest with
    | none => .ok none
    | some pos => do
      let j := pos + i
      let inner ← slice s i j
      .ok (some inner)

def tag (s name : Text) : Except Stop (Option Text) := do
  let namespaced ← between s ("<yt:".toList ++ name ++ ['>']) ("</yt:".toList ++ name ++ ['>'])
  match namespaced with
  | some inner => .ok (some inner)
  | none => between s ('<' :: name ++ ['>']) ("</".toList ++ name ++ ['>'])

/-- The loop of `find_channel_id`. -/
def find_after : List String → Text → Except Stop (Option Text)
  | [], _ => .ok none
  | marker :: markers, s =>
    match find_bytes marker.toList s with
    | none => find_after markers s
    | some pos => do
      let tail ← slice s (pos + size marker.toList - 2) (size s)
      let cand := tail.take 24
      if is_channel_id cand then .ok (some cand) else find_after markers s

def find_channel_id : Text → Except Stop (Option Text) :=
  find_after ["<yt:channelId>UC", "/channel/UC", "channel_id=UC"]

def deletion (block : Text) : Except Stop (List Entry) := do
  let ref ← between block "ref=\"yt:video:".toList ['"']
  let video_id := (ref.map trim).getD []
  if is_video_id video_id then do
    let channel_id ← find_channel_id block
    .ok [{ kind := "deleted".toList, channel_id := channel_id.getD [], video_id, title := [], ts := [] }]
  else .ok []

def deletions : Nat → Text → Except Stop (List Entry)
  | 0, _ => .error .fuel
  | fuel + 1, rest =>
    match find_bytes "<at:deleted-entry".toList rest with
    | none => .ok []
    | some block_start => do
      let tail ← slice rest block_start (size rest)
      let block_end := ((find_bytes "</at:deleted-entry>".toList tail).map fun pos =>
        block_start + pos + size "</at:deleted-entry>".toList).getD (size rest)
      let block ← slice rest block_start block_end
      let out ← deletion block
      let rest ← slice rest block_end (size rest)
      let more ← deletions fuel rest
      .ok (out ++ more)

def regular (block : Text) : Except Stop (List Entry) := do
  let video_id ← tag block "videoId".toList
  let primary ← tag block "channelId".toList
  let channel_id ←
    match (primary.map trim).filter is_channel_id with
    | some channel_id => .ok (some channel_id)
    | none => find_channel_id block
  match video_id.map trim, channel_id with
  | some video_id, some channel_id =>
    if is_video_id video_id && is_channel_id channel_id then do
      let title ← tag block "title".toList
      let published ← tag block "published".toList
      let updated ← tag block "updated".toList
      let kind :=
        match published.map trim, updated.map trim with
        | some p, some u => if p ≠ u then "updated".toList else "new".toList
        | _, _ => "new".toList
      .ok [{
        kind
        channel_id
        video_id
        title := (title.map fun s => decode_entities (trim s)).getD []
        ts := ((updated.map trim).or (published.map trim)).getD [] }]
    else .ok []
  | _, _ => .ok []

def entries : Nat → Text → Except Stop (List Entry)
  | 0, _ => .error .fuel
  | fuel + 1, rest =>
    match find_bytes "<entry>".toList rest with
    | none => .ok []
    | some pos => do
      let block_start := pos + size "<entry>".toList
      let tail ← slice rest block_start (size rest)
      let block_end := ((find_bytes "</entry>".toList tail).map fun pos => block_start + pos).getD (size rest)
      let block ← slice rest block_start block_end
      let out ← regular block
      let advance := block_end + size "</entry>".toList
      if size rest ≤ advance then .ok out
      else do
        let rest ← slice rest advance (size rest)
        let more ← entries fuel rest
        .ok (out ++ more)

def parse (fuel : Nat) (body : Text) : Except Stop (List Entry) := do
  let deleted ← deletions fuel body
  let regular ← entries fuel body
  .ok (deleted ++ regular)

theorem ok_bind {α β : Type} (a : α) (f : α → Except Stop β) : (Except.ok a >>= f) = f a := rfl

theorem between_eq (s start stop : Text) : between s start stop = .ok (atom.between s start stop) := by
  rw [between, find_bytes_eq, atom.between, split_once]
  cases hstart : find start s with
  | none => rfl
  | some pos =>
    have hi : offset s pos + size start = offset s (pos + start.length) :=
      (offset_add_length (prefix_of_find hstart)).symm
    simp only [Option.map_some, hi, slice_offset_end, ok_bind, Option.bind_eq_bind, Option.bind_some, find_bytes_eq,
      split_once]
    cases find stop (s.drop (pos + start.length)) with
    | none => rfl
    | some pos' =>
      have hj : offset (s.drop (pos + start.length)) pos' + offset s (pos + start.length) =
          offset s (pos + start.length + pos') := by
        rw [Nat.add_comm, ← offset_add]
      simp only [Option.map_some, hj, slice_offset s (Nat.le_add_right _ _), ok_bind, Option.bind_some,
        Nat.add_sub_cancel_left]

theorem tag_eq (s name : Text) : tag s name = .ok (atom.tag s name) := by
  rw [tag, between_eq, between_eq, ok_bind, atom.tag]
  cases atom.between s ("<yt:".toList ++ name ++ ['>']) ("</yt:".toList ++ name ++ ['>']) <;> rfl

/-- A marker ends with the two ASCII letters that the id begins with. -/
theorem find_after_eq {markers : List String}
    (hmarkers : ∀ marker ∈ markers, ∃ front, marker.toList = front ++ "UC".toList) (s : Text) :
    find_after markers s = .ok (resolve.find_after markers s) := by
  induction markers with
  | nil => rfl
  | cons marker markers ih =>
    obtain ⟨⟨front, hfront⟩, hmarkers⟩ := List.forall_mem_cons.mp hmarkers
    rw [find_after, find_bytes_eq, resolve.find_after, List.findSome?_cons, ih hmarkers]
    cases hfind : find marker.toList s with
    | none => rfl
    | some pos =>
      have hhere : front <+: s.drop pos := (List.prefix_append front _).trans (hfront ▸ prefix_of_find hfind)
      have hstart : offset s pos + size marker.toList - 2 = offset s (pos + front.length) := by
        have hsize : size "UC".toList = 2 := by decide
        rw [hfront, size_append, hsize, offset_add_length hhere]
        omega
      have hlength : pos + marker.length - 2 = pos + front.length := by
        have h := congrArg List.length hfront
        rw [String.length_toList, List.length_append] at h
        simp at h
        omega
      simp only [Option.map_some, hstart, slice_offset_end, ok_bind, hlength]
      split <;> rfl

theorem find_channel_id_eq (s : Text) : find_channel_id s = .ok (atom.find_channel_id s) := by
  refine find_after_eq ?_ s
  simp only [List.forall_mem_cons, List.not_mem_nil, false_imp_iff, implies_true, and_true]
  exact ⟨⟨"<yt:channelId>".toList, by simp⟩, ⟨"/channel/".toList, by simp⟩, ⟨"channel_id=".toList, by simp⟩⟩

theorem deletion_eq (block : Text) : deletion block = .ok (atom.deletion block) := by
  simp only [deletion, between_eq, find_channel_id_eq, ok_bind, atom.deletion]
  split <;> rfl

theorem regular_eq (block : Text) : regular block = .ok (atom.regular block) := by
  simp only [regular, tag_eq, find_channel_id_eq, ok_bind, atom.regular]
  cases ((atom.tag block "channelId".toList).map trim).filter is_channel_id <;>
    cases (atom.tag block "videoId".toList).map trim <;>
    cases atom.find_channel_id block <;> try rfl
  all_goals
    simp only [Option.some_or, Option.none_or]
    split <;> rfl

theorem deletions_eq {fuel : Nat} {rest : Text} (h : rest.length < fuel) :
    deletions fuel rest = .ok (atom.deletions fuel rest) := by
  induction fuel generalizing rest with
  | zero => exact absurd h (Nat.not_lt_zero _)
  | succ fuel ih =>
    rw [deletions, find_bytes_eq, atom.deletions]
    cases hfind : find "<at:deleted-entry".toList rest with
    | none => rfl
    | some pos =>
      have hle := find_add_length_le hfind
      have hmarker : "<at:deleted-entry".toList.length = 17 := by simp
      simp only [Option.map_some, slice_offset_end, ok_bind, find_bytes_eq]
      obtain ⟨n, hpositive, hchars, hend⟩ : ∃ n, 0 < n ∧
          ((find "</at:deleted-entry>".toList (rest.drop pos)).map (· + 19)).getD (rest.drop pos).length = n ∧
          (((find "</at:deleted-entry>".toList (rest.drop pos)).map (offset (rest.drop pos))).map fun e =>
            offset rest pos + e + size "</at:deleted-entry>".toList).getD (size rest) = offset rest (pos + n) := by
        cases hstop : find "</at:deleted-entry>".toList (rest.drop pos) with
        | none =>
          refine ⟨(rest.drop pos).length, ?_, rfl, (offset_of_length_le ?_).symm⟩ <;> rw [List.length_drop] <;> omega
        | some k =>
          have hbehind := offset_add_length (prefix_of_find hstop)
          have hlength : "</at:deleted-entry>".toList.length = 19 := by simp
          rw [hlength] at hbehind
          refine ⟨k + 19, Nat.succ_pos _, rfl, ?_⟩
          rw [Option.map_some, Option.map_some, Option.getD_some, offset_add, hbehind, Nat.add_assoc]
      have hshorter : (rest.drop (pos + n)).length < fuel := by
        rw [List.length_drop]
        omega
      rw [hend, hchars, slice_offset rest (Nat.le_add_right _ _), ok_bind, Nat.add_sub_cancel_left, deletion_eq,
        ok_bind, slice_offset_end, ok_bind, ih hshorter, ok_bind, List.drop_drop]

theorem entries_eq {fuel : Nat} {rest : Text} (h : rest.length < fuel) :
    entries fuel rest = .ok (atom.entries fuel rest) := by
  induction fuel generalizing rest with
  | zero => exact absurd h (Nat.not_lt_zero _)
  | succ fuel ih =>
    rw [entries, find_bytes_eq, atom.entries]
    cases hfind : find "<entry>".toList rest with
    | none => rfl
    | some pos =>
      have hle := find_add_length_le hfind
      have hmarker : "<entry>".toList.length = 7 := by simp
      have hstart := offset_add_length (prefix_of_find hfind)
      rw [hmarker] at hle hstart
      simp only [Option.map_some, ← hstart, slice_offset_end, ok_bind, find_bytes_eq]
      cases hstop : find "</entry>".toList (rest.drop (pos + 7)) with
      | none =>
        have hend : size rest = offset rest (pos + 7 + (rest.drop (pos + 7)).length) := by
          rw [offset_of_length_le]
          rw [List.length_drop]
          omega
        rw [Option.map_none, Option.map_none, Option.getD_none, Option.getD_none]
        conv_lhs => rw [hend]
        rw [slice_offset rest (Nat.le_add_right _ _), ok_bind, Nat.add_sub_cancel_left, regular_eq, ok_bind,
          if_pos (Nat.le_add_right _ _), if_pos (Nat.le_add_right _ _), List.append_nil]
      | some n =>
        have hbehind := offset_add_length (prefix_of_find hstop)
        have hlength : "</entry>".toList.length = 8 := by simp
        rw [hlength] at hbehind
        have hadvance : offset rest (pos + 7 + n) + size "</entry>".toList = offset rest (pos + 7 + (n + 8)) := by
          rw [offset_add rest (pos + 7) (n + 8), hbehind, offset_add, Nat.add_assoc]
        have hdone : size rest ≤ offset rest (pos + 7 + (n + 8)) ↔ (rest.drop (pos + 7)).length ≤ n + 8 := by
          rw [size_le_offset_iff, List.length_drop]
          omega
        have hshorter : (rest.drop (pos + 7 + (n + 8))).length < fuel := by
          rw [List.length_drop]
          omega
        rw [Option.map_some, Option.map_some, Option.getD_some, Option.getD_some, ← offset_add,
          slice_offset rest (Nat.le_add_right _ _), ok_bind, Nat.add_sub_cancel_left, regular_eq, ok_bind, hadvance]
        simp only [hdone]
        split
        · rw [List.append_nil]
        · rw [slice_offset_end, ok_bind, ih hshorter, ok_bind, List.drop_drop]

end yt_websub.atom.sliced

namespace yt_websub.atom

theorem find_channel_id_valid {block id : Text} (h : find_channel_id block = some id) : is_channel_id id = true :=
  find_after_valid h

/-- The channel of a deletion need not be found. -/
theorem deletion_channel {block : Text} {e : Entry} (h : e ∈ deletion block) :
    e.kind = "deleted".toList ∧ (is_channel_id e.channel_id = true ∨ e.channel_id = []) := by
  simp only [deletion] at h
  split at h
  · rw [List.mem_singleton] at h
    subst h
    refine ⟨rfl, ?_⟩
    dsimp only
    cases hfind : find_channel_id block with
    | none => exact Or.inr rfl
    | some id => exact Or.inl (find_channel_id_valid hfind)
  · cases h

theorem regular_channel {block : Text} {e : Entry} (h : e ∈ regular block) : is_channel_id e.channel_id = true := by
  simp only [regular] at h
  split at h
  · split at h
    · rename_i hvalid
      rw [List.mem_singleton] at h
      subst h
      exact (Bool.and_eq_true_iff.mp hvalid).2
    · cases h
  · cases h

/-- On every body the loops end and no slice panics, and what they return is well formed. -/
theorem parse_safe (body : Text) :
    (∀ extra, sliced.parse (body.length + extra + 1) body = .ok (parse body)) ∧
      ∀ e ∈ parse body, is_video_id e.video_id = true ∧ isKind e.kind ∧
        (is_channel_id e.channel_id = true ∨ (e.kind = "deleted".toList ∧ e.channel_id = [])) := by
  refine ⟨fun extra => ?_, fun e he => ?_⟩
  · have henough : body.length < body.length + extra + 1 := by omega
    rw [sliced.parse, sliced.deletions_eq henough, sliced.ok_bind, sliced.entries_eq henough, sliced.ok_bind,
      deletions_fuel henough.le le_rfl, entries_fuel henough.le le_rfl]
    rfl
  · obtain ⟨hvideo, hkind⟩ := parse_valid he
    refine ⟨hvideo, hkind, ?_⟩
    obtain ⟨block, hblock⟩ | ⟨block, hblock⟩ := mem_parse he
    · obtain ⟨hdeleted, hchannel | hempty⟩ := deletion_channel hblock
      · exact Or.inl hchannel
      · exact Or.inr ⟨hdeleted, hempty⟩
    · exact Or.inl (regular_channel hblock)

end yt_websub.atom
