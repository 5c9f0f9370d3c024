import Mathlib

namespace rust.map

/-- A finite map with one value type; its order of iteration is not specified, so
whatever depends on an order takes it as an argument. -/
abbrev HashMap (K V : Type) := AList fun _ : K => V

variable {K V : Type}

/-- `HashMap::values`, in the order of the representation. -/
def values (m : HashMap K V) : List V :=
  m.entries.map Sigma.snd

variable [DecidableEq K]

/-- `HashMap::retain`. -/
def retain (m : HashMap K V) (p : V → Bool) : HashMap K V where
  entries := m.entries.filter fun entry => p entry.2
  nodupKeys := List.NodupKeys.sublist List.filter_sublist m.nodupKeys

/-- A change through `HashMap::get_mut`, when the key is there. -/
def modify (m : HashMap K V) (k : K) (f : V → V) : HashMap K V :=
  match m.lookup k with
  | some v => m.insert k (f v)
  | none => m

theorem mem_values {m : HashMap K V} {v : V} : v ∈ values m ↔ ∃ k, m.lookup k = some v := by
  unfold values
  rw [List.mem_map]
  constructor
  · rintro ⟨⟨k, v⟩, hentry, rfl⟩
    exact ⟨k, AList.mem_lookup_iff.mpr hentry⟩
  · rintro ⟨k, hk⟩
    exact ⟨⟨k, v⟩, AList.mem_lookup_iff.mp hk, rfl⟩

theorem lookup_retain_eq_some {m : HashMap K V} {p : V → Bool} {k : K} {v : V} :
    (retain m p).lookup k = some v ↔ m.lookup k = some v ∧ p v = true := by
  have hentry : (⟨k, v⟩ : Sigma fun _ : K => V) ∈ (retain m p).entries ↔
      (⟨k, v⟩ : Sigma fun _ : K => V) ∈ m.entries ∧ p v = true := List.mem_filter
  exact AList.mem_lookup_iff.trans (hentry.trans (and_congr_left' AList.mem_lookup_iff.symm))

theorem lookup_insert_eq_some {m : HashMap K V} {k k' : K} {v v' : V} :
    (m.insert k v).lookup k' = some v' ↔ (k' = k ∧ v' = v) ∨ (k' ≠ k ∧ m.lookup k' = some v') := by
  by_cases hk : k' = k
  · subst hk
    rw [AList.lookup_insert, Option.some.injEq]
    constructor
    · exact fun h => Or.inl ⟨rfl, h.symm⟩
    · rintro (⟨_, rfl⟩ | ⟨hne, _⟩)
      · rfl
      · exact absurd rfl hne
  · rw [AList.lookup_insert_ne hk]
    exact ⟨fun h => Or.inr ⟨hk, h⟩, fun h => h.elim (fun h => absurd h.1 hk) (fun h => h.2)⟩

theorem lookup_erase_eq_some {m : HashMap K V} {k k' : K} {v : V} :
    (m.erase k).lookup k' = some v ↔ k' ≠ k ∧ m.lookup k' = some v := by
  by_cases hk : k' = k
  · subst hk
    simp [AList.lookup_erase]
  · rw [AList.lookup_erase_ne hk]
    exact ⟨fun h => ⟨hk, h⟩, fun h => h.2⟩

theorem lookup_modify {m : HashMap K V} {k k' : K} {f : V → V} :
    (modify m k f).lookup k' = if k' = k then (m.lookup k).map f else m.lookup k' := by
  unfold modify
  by_cases hk : k' = k
  · subst hk
    rw [if_pos rfl]
    cases h : m.lookup k' with
    | none => exact h
    | some v => simp [AList.lookup_insert]
  · rw [if_neg hk]
    cases m.lookup k with
    | none => rfl
    | some v => exact AList.lookup_insert_ne hk

/-- Changing several keys by a function that does not add up. -/
theorem lookup_foldl_modify {m : HashMap K V} {ks : List K} {f : V → V} (hf : ∀ v, f (f v) = f v) (k : K) :
    (ks.foldl (fun m k => modify m k f) m).lookup k = if k ∈ ks then (m.lookup k).map f else m.lookup k := by
  induction ks generalizing m with
  | nil => simp
  | cons k' ks ih =>
    rw [List.foldl_cons, ih, lookup_modify]
    by_cases hk : k = k'
    · subst hk
      simp [Option.map_map, Function.comp_def, hf]
    · simp [hk]

theorem mem_modify {m : HashMap K V} {k k' : K} {f : V → V} : k' ∈ modify m k f ↔ k' ∈ m := by
  unfold modify
  cases h : m.lookup k with
  | none => exact Iff.rfl
  | some v =>
    have hk : k ∈ m := AList.lookup_isSome.mp (h ▸ rfl)
    rw [AList.mem_insert]
    exact ⟨fun h => h.elim (fun heq => heq ▸ hk) id, Or.inr⟩

theorem mem_foldl_modify {m : HashMap K V} {ks : List K} {f : V → V} {k : K} :
    k ∈ ks.foldl (fun m k => modify m k f) m ↔ k ∈ m := by
  induction ks generalizing m with
  | nil => exact Iff.rfl
  | cons k' ks ih => rw [List.foldl_cons, ih, mem_modify]

/-- `HashMap::entry` and `or_insert` for several entries: an existing key keeps its value. -/
theorem lookup_foldl_or_insert (entries : List (Sigma fun _ : K => V)) (m : HashMap K V) (k : K) :
    (entries.foldl (fun m entry => if entry.1 ∈ m then m else m.insert entry.1 entry.2) m).lookup k =
      if k ∈ m then m.lookup k else entries.dlookup k := by
  induction entries generalizing m with
  | nil =>
    split
    · rfl
    · rename_i hmem
      exact AList.lookup_eq_none.mpr hmem
  | cons entry entries ih =>
    rw [List.foldl_cons, ih]
    obtain ⟨k', v⟩ := entry
    by_cases hk : k = k'
    · subst hk
      by_cases hmem : k ∈ m
      · simp [hmem]
      · simp [hmem, AList.lookup_insert]
    · have hskip : List.dlookup k (⟨k', v⟩ :: entries) = entries.dlookup k := List.dlookup_cons_ne entries ⟨k', v⟩ hk
      by_cases hmem : k' ∈ m
      · simp [hmem, hskip]
      · simp [hmem, hk, AList.lookup_insert_ne hk, hskip]

end rust.map
