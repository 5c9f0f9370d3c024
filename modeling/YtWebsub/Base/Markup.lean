import YtWebsub.Base.Search

open rust.utf8 rust.text

/-! Searching a text for what begins with a mark, piece by piece. -/

namespace markup

variable {mark : Char}

/-- A text without the mark, then pieces that each begin after one. -/
def join (mark : Char) (lead : Text) (pieces : List Text) : Text :=
  lead ++ pieces.flatMap (mark :: ·)

@[simp]
theorem join_nil (lead : Text) : join mark lead [] = lead := List.append_nil lead

theorem join_cons (lead piece : Text) (pieces : List Text) :
    join mark lead (piece :: pieces) = lead ++ mark :: join mark piece pieces := by
  simp [join]

theorem join_append (lead : Text) (before after : List Text) :
    join mark lead (before ++ after) = join mark lead before ++ join mark [] after := by
  simp [join]

/-- What does not contain the mark stands in front of the next one or not at all. -/
theorem prefix_join {q piece : Text} (hq : mark ∉ q) (pieces : List Text) :
    q <+: join mark piece pieces ↔ q <+: piece := by
  refine ⟨fun h => ?_, fun h => h.trans (List.prefix_append _ _)⟩
  obtain hle | hlt := le_or_gt q.length piece.length
  · exact List.prefix_of_prefix_length_le h (List.prefix_append _ _) hle
  · obtain ⟨more, rfl⟩ := List.prefix_of_prefix_length_le (List.prefix_append _ _) h hlt.le
    rw [join, List.prefix_append_right_inj] at h
    cases more with
    | nil =>
      rw [List.append_nil] at hlt
      exact absurd hlt (lt_irrefl _)
    | cons c more =>
      cases pieces with
      | nil => exact absurd h.length_le (by simp)
      | cons next pieces =>
        rw [List.flatMap_cons, List.cons_append, List.cons_prefix_cons] at h
        exact absurd (by simp [h.1]) hq

/-- No piece before the first mark is searched. -/
theorem split_once_lead {q lead : Text} (hlead : mark ∉ lead) (s : Text) :
    split_once (mark :: q) (lead ++ s) = (split_once (mark :: q) s).map fun (front, rest) => (lead ++ front, rest) := by
  induction lead with
  | nil => simp
  | cons c lead ih =>
    obtain ⟨hc, hlead⟩ := not_or.mp (List.mem_cons.not.mp hlead)
    have hfirst : ¬ mark :: q <+: c :: (lead ++ s) := fun h => hc (List.cons_prefix_cons.mp h).1
    rw [List.cons_append, split_once_cons_of_not_prefix hfirst, ih hlead, Option.map_map]
    rfl

/-- A piece that does not begin with the rest of the pattern is passed over. -/
theorem split_once_skip {q lead piece : Text} (hq : mark ∉ q) (hlead : mark ∉ lead) (hpiece : ¬ q <+: piece)
    (pieces : List Text) : split_once (mark :: q) (join mark lead (piece :: pieces)) =
      (split_once (mark :: q) (join mark piece pieces)).map fun (front, rest) => (lead ++ mark :: front, rest) := by
  have hfirst : ¬ mark :: q <+: mark :: join mark piece pieces := by
    rw [List.cons_prefix_cons, prefix_join hq]
    exact fun h => hpiece h.2
  rw [join_cons, split_once_lead hlead, split_once_cons_of_not_prefix hfirst, Option.map_map]
  rfl

/-- Pieces to be passed over: without the mark, and not beginning with `q`. -/
def Passed (mark : Char) (q : Text) (pieces : List Text) : Prop :=
  ∀ piece ∈ pieces, mark ∉ piece ∧ ¬ q <+: piece

/-- The pattern is found at the first piece that begins with the rest of it. -/
theorem split_once_join {q lead : Text} {before : List Text} (hq : mark ∉ q) (hlead : mark ∉ lead)
    (hbefore : Passed mark q before) (inner : Text) (after : List Text) :
    split_once (mark :: q) (join mark lead (before ++ (q ++ inner) :: after)) =
      some (join mark lead before, join mark inner after) := by
  induction before generalizing lead with
  | nil =>
    have hhere : mark :: join mark (q ++ inner) after = (mark :: q) ++ join mark inner after := by simp [join]
    rw [List.nil_append, join_cons, split_once_lead hlead, hhere, split_once_append_self]
    rfl
  | cons piece before ih =>
    obtain ⟨⟨hmark, hpiece⟩, hbefore⟩ := List.forall_mem_cons.mp hbefore
    rw [List.cons_append, split_once_skip hq hlead hpiece, ih hmark hbefore, join_cons]
    rfl

theorem split_once_join_none {q lead : Text} {pieces : List Text} (hq : mark ∉ q) (hlead : mark ∉ lead)
    (hpieces : Passed mark q pieces) : split_once (mark :: q) (join mark lead pieces) = none := by
  induction pieces generalizing lead with
  | nil =>
    rw [join_nil, ← List.append_nil lead, split_once_lead hlead]
    rfl
  | cons piece pieces ih =>
    obtain ⟨⟨hmark, hpiece⟩, hpieces⟩ := List.forall_mem_cons.mp hpieces
    rw [split_once_skip hq hlead hpiece, ih hmark hpieces]
    rfl

variable {stop : Char}

/-- A piece that begins with a name, up to the first `stop`. -/
def named (stop : Char) (tag : Text × Text) : Text :=
  tag.1 ++ stop :: tag.2

theorem takeWhile_name {name : Text} (hname : stop ∉ name) (rest : Text) :
    (name ++ stop :: rest).takeWhile (· ≠ stop) = name := by
  rw [List.takeWhile_append_of_pos]
  · simp
  · exact fun c hc => decide_eq_true fun heq => hname (heq ▸ hc)

/-- A name with its end is a prefix of its own pieces only. -/
theorem prefix_named {name : Text} {tag : Text × Text} (hname : stop ∉ name) (htag : stop ∉ tag.1) :
    name ++ [stop] <+: named stop tag ↔ name = tag.1 := by
  constructor
  · rintro ⟨rest, hrest⟩
    rw [List.append_assoc, List.singleton_append, named] at hrest
    have hsplit := congrArg (List.takeWhile (· ≠ stop)) hrest
    rwa [takeWhile_name hname, takeWhile_name htag] at hsplit
  · rintro rfl
    exact ⟨tag.2, by simp [named]⟩

/-- What does not contain the end of a name is a prefix of the name or not at all. -/
theorem prefix_named_of_not_mem {q : Text} {tag : Text × Text} (hq : stop ∉ q) :
    q <+: named stop tag ↔ q <+: tag.1 := by
  have hjoin : named stop tag = join stop tag.1 [tag.2] := by simp [named, join]
  rw [hjoin, prefix_join hq]

/-- Tags without the mark, whose names do not contain what ends a name. -/
structure WellNamed (mark stop : Char) (tags : List (Text × Text)) : Prop where
  names : ∀ name ∈ tags.map Prod.fst, mark ∉ name ∧ stop ∉ name
  contents : ∀ content ∈ tags.map Prod.snd, mark ∉ content

theorem WellNamed.of_subset {tags tags' : List (Text × Text)} (h : WellNamed mark stop tags) (hsubset : tags' ⊆ tags) :
    WellNamed mark stop tags' :=
  ⟨fun name hname => h.names name (List.map_subset _ hsubset hname),
    fun content hcontent => h.contents content (List.map_subset _ hsubset hcontent)⟩

theorem WellNamed.not_mem_named {tags : List (Text × Text)} (h : WellNamed mark stop tags) (hne : mark ≠ stop)
    {tag : Text × Text} (htag : tag ∈ tags) : mark ∉ named stop tag := by
  rw [named, List.mem_append, List.mem_cons]
  rintro (hmem | heq | hmem)
  · exact (h.names tag.1 (List.mem_map_of_mem htag)).1 hmem
  · exact hne heq
  · exact h.contents tag.2 (List.mem_map_of_mem htag) hmem

theorem WellNamed.passed {tags : List (Text × Text)} (h : WellNamed mark stop tags) (hne : mark ≠ stop) {name : Text}
    (hname : stop ∉ name) (hother : name ∉ tags.map Prod.fst) :
    Passed mark (name ++ [stop]) (tags.map (named stop)) := by
  intro piece hpiece
  obtain ⟨tag, htag, rfl⟩ := List.mem_map.mp hpiece
  have hstop := (h.names tag.1 (List.mem_map_of_mem htag)).2
  refine ⟨h.not_mem_named hne htag, ?_⟩
  rw [prefix_named hname hstop]
  exact fun heq => hother (heq ▸ List.mem_map_of_mem htag)

end markup
