import YtWebsub.Resolve

open rust rust.utf8 rust.text

namespace yt_websub.resolve

/-- The markers of `extract_uc`, those of the page's own channel first. -/
def markers : List String :=
  ["rel=\"canonical\" href=\"https://www.youtube.com/channel/UC",
    "property=\"og:url\" content=\"https://www.youtube.com/channel/UC",
    "\"externalId\":\"UC",
    "\"channelId\":\"UC",
    "/channel/UC",
    "channel_id=UC"]

theorem extract_uc_eq (text : Text) : extract_uc text = find_after markers text := rfl

/-- The marker stands at the position, and the id begins with the `UC` that ends it. -/
def CarriesAt (marker : String) (text : Text) (pos : Nat) (id : Text) : Prop :=
  marker.toList <+: text.drop pos ∧ (text.drop (pos + marker.length - 2)).take 24 = id ∧ is_channel_id id = true

/-- Some occurrence of the marker is followed by the id. -/
def Carries (marker : String) (text id : Text) : Prop :=
  ∃ pos, CarriesAt marker text pos id

/-- The first occurrence of the marker is followed by the id. -/
def CarriesFirst (marker : String) (text id : Text) : Prop :=
  ∃ pos, CarriesAt marker text pos id ∧ ∀ earlier < pos, ¬ marker.toList <+: text.drop earlier

theorem CarriesFirst.carries {marker : String} {text id : Text} (h : CarriesFirst marker text id) :
    Carries marker text id :=
  h.imp fun _ h => h.1

/-- The extraction tries the first occurrence of each marker, in the order of the list. -/
theorem find_after_eq_some_iff {markers : List String} {text id : Text} :
    find_after markers text = some id ↔ ∃ skipped marker rest, markers = skipped ++ marker :: rest ∧
      CarriesFirst marker text id ∧ ∀ m ∈ skipped, ∀ id, ¬ CarriesFirst m text id := by
  have hfindSome : ∀ f : String → Option Text, (∀ marker id, f marker = some id ↔ CarriesFirst marker text id) →
      (markers.findSome? f = some id ↔ ∃ skipped marker rest, markers = skipped ++ marker :: rest ∧
        CarriesFirst marker text id ∧ ∀ m ∈ skipped, ∀ id, ¬ CarriesFirst m text id) := by
    intro f hfirst
    rw [List.findSome?_eq_some_iff]
    refine exists_congr fun skipped => exists_congr fun marker => exists_congr fun rest =>
      and_congr_right' (and_congr (hfirst marker id) (forall₂_congr fun m _ => ?_))
    rw [Option.eq_none_iff_forall_ne_some]
    exact forall_congr' fun id => not_congr (hfirst m id)
  refine hfindSome _ fun marker id => ⟨fun h => ?_, ?_⟩
  · split at h
    · cases h
    · rename_i pos hfind
      dsimp only at h
      split at h
      · rename_i hvalid
        obtain rfl := Option.some.inj h
        obtain ⟨hhere, hnone⟩ := find_eq_some_iff.mp hfind
        exact ⟨pos, ⟨hhere, rfl, hvalid⟩, hnone⟩
      · cases h
  · rintro ⟨pos, ⟨hhere, rfl, hvalid⟩, hnone⟩
    rw [find_eq_some_iff.mpr ⟨hhere, hnone⟩]
    exact if_pos hvalid

/-- What is extracted is an id that the first marker of the list with any id carries. -/
structure Extracts (text : Text) (result : Option Text) : Prop where
  complete : result.isSome = true ↔ ∃ marker ∈ markers, ∃ id, Carries marker text id
  prioritised : ∀ id, result = some id → ∃ earlier marker later, markers = earlier ++ marker :: later ∧
    Carries marker text id ∧ ∀ m ∈ earlier, ∀ id, ¬ Carries m text id

/-- No malformed first occurrence hides an id: the first marker with an id has one at its
first occurrence, or else the next marker that does has one there that the first marker
has further on. -/
def NothingHidden (text : Text) : Prop :=
  (∀ marker ∈ markers, ∀ id, ¬ Carries marker text id) ∨
    ∃ earlier marker later, markers = earlier ++ marker :: later ∧ (∀ m ∈ earlier, ∀ id, ¬ Carries m text id) ∧
      ((∃ id, CarriesFirst marker text id) ∨
        ∃ skipped next rest id, later = skipped ++ next :: rest ∧ (∀ m ∈ skipped, ∀ id, ¬ CarriesFirst m text id) ∧
          CarriesFirst next text id ∧ Carries marker text id)

/-- Two places of one list: the same, or one before the other. -/
theorem append_cons_cases {α : Type} {before after before' after' : List α} {a a' : α}
    (h : before ++ a :: after = before' ++ a' :: after') :
    (before = before' ∧ a = a') ∨ a' ∈ before ∨
      ∃ between, before' = before ++ a :: between ∧ after = between ++ a' :: after' := by
  obtain ⟨between, hbefore, hafter⟩ | ⟨between, hbefore, hafter⟩ := List.append_eq_append_iff.mp h
  · cases between with
    | nil => exact Or.inl ⟨by rw [hbefore, List.append_nil], (List.cons.inj hafter).1⟩
    | cons b between =>
      obtain ⟨rfl, htail⟩ := List.cons.inj hafter
      exact Or.inr (Or.inr ⟨between, hbefore, htail⟩)
  · cases between with
    | nil => exact Or.inl ⟨by rw [hbefore, List.append_nil], ((List.cons.inj hafter).1).symm⟩
    | cons b between =>
      obtain ⟨rfl, _⟩ := List.cons.inj hafter
      exact Or.inr (Or.inl (hbefore ▸ by simp))

/-- The extraction is complete and prioritised exactly on the pages where nothing is hidden. -/
theorem extract_uc_iff (text : Text) : Extracts text (extract_uc text) ↔ NothingHidden text := by
  rw [extract_uc_eq]
  constructor
  · intro h
    cases hresult : find_after markers text with
    | none =>
      rw [hresult] at h
      refine Or.inl fun marker hmarker id hid => ?_
      exact absurd (h.complete.mpr ⟨marker, hmarker, id, hid⟩) (by simp)
    | some id =>
      obtain ⟨earlier, marker, later, hmarkers, hcarries, hearlier⟩ := h.prioritised id hresult
      obtain ⟨skipped, first, rest, hmarkers', hfirst, hskipped⟩ := find_after_eq_some_iff.mp hresult
      refine Or.inr ⟨earlier, marker, later, hmarkers, hearlier, ?_⟩
      obtain ⟨_, rfl⟩ | hmem | ⟨between, rfl, rfl⟩ := append_cons_cases (hmarkers.symm.trans hmarkers')
      · exact Or.inl ⟨id, hfirst⟩
      · exact absurd hfirst.carries (hearlier first hmem id)
      · refine Or.inr ⟨between, first, rest, id, rfl, fun m hm => hskipped m ?_, hfirst, hcarries⟩
        exact List.mem_append_right _ (List.mem_cons_of_mem _ hm)
  · rintro (hnone | ⟨earlier, marker, later, hmarkers, hearlier, hfound⟩)
    · have hresult : find_after markers text = none := by
        rw [Option.eq_none_iff_forall_ne_some]
        intro id hresult
        obtain ⟨skipped, first, rest, hmarkers, hfirst, _⟩ := find_after_eq_some_iff.mp hresult
        exact hnone first (by rw [hmarkers]; simp) id hfirst.carries
      rw [hresult]
      refine ⟨⟨fun h => absurd h (by simp), ?_⟩, fun id h => absurd h (by simp)⟩
      rintro ⟨marker, hmarker, id, hid⟩
      exact absurd hid (hnone marker hmarker id)
    · obtain ⟨id, hresult, hcarries⟩ : ∃ id, find_after markers text = some id ∧ Carries marker text id := by
        by_cases hown : ∃ id, CarriesFirst marker text id
        · obtain ⟨id, hfirst⟩ := hown
          exact ⟨id, find_after_eq_some_iff.mpr ⟨earlier, marker, later, hmarkers, hfirst,
            fun m hm id h => hearlier m hm id h.carries⟩, hfirst.carries⟩
        · obtain hfirst | ⟨skipped, next, rest, id, rfl, hskipped, hfirst, hcarries⟩ := hfound
          · exact absurd hfirst hown
          · refine ⟨id, find_after_eq_some_iff.mpr ⟨earlier ++ marker :: skipped, next, rest, ?_, hfirst, ?_⟩, hcarries⟩
            · rw [hmarkers, List.append_assoc, List.cons_append]
            · intro m hm id h
              obtain hm | hm := List.mem_append.mp hm
              · exact hearlier m hm id h.carries
              · obtain rfl | hm := List.mem_cons.mp hm
                · exact hown ⟨id, h⟩
                · exact hskipped m hm id h
      rw [hresult]
      refine ⟨⟨fun _ => ⟨marker, by rw [hmarkers]; simp, id, hcarries⟩, fun _ => rfl⟩, fun id' h => ?_⟩
      obtain rfl := Option.some.inj h
      exact ⟨earlier, marker, later, hmarkers, hcarries, hearlier⟩

/-- A page whose first `externalId` is empty. -/
theorem extract_uc_hides :
    ¬ Extracts "\"externalId\":\"UC\",\"externalId\":\"UCabcdefghijklmnopqrstuv\"".toList
      (extract_uc "\"externalId\":\"UC\",\"externalId\":\"UCabcdefghijklmnopqrstuv\"".toList) := by
  intro h
  have hnone : extract_uc "\"externalId\":\"UC\",\"externalId\":\"UCabcdefghijklmnopqrstuv\"".toList = none := by
    decide +kernel
  have hsome := h.complete.mpr ⟨"\"externalId\":\"UC", by simp [markers], "UCabcdefghijklmnopqrstuv".toList, 18,
    ⟨"abcdefghijklmnopqrstuv\"".toList, by simp⟩, by decide +kernel, by decide +kernel⟩
  rw [hnone] at hsome
  cases hsome

end yt_websub.resolve
