import Mathlib

namespace recent

variable {α κ : Type}

theorem rtake_suffix_rtake {l l' : List α} (h : l <:+ l') (cap : Nat) : l.rtake cap <:+ l'.rtake cap := by
  obtain ⟨front, rfl⟩ := h
  apply List.suffix_of_suffix_length_le
  · exact (List.drop_suffix _ l).trans (List.suffix_append front l)
  · exact List.drop_suffix _ _
  · simp only [List.rtake, List.length_drop, List.length_append]
    omega

theorem rtake_of_length_le {l : List α} {cap : Nat} (h : l.length ≤ cap) : l.rtake cap = l := by
  rw [List.rtake, Nat.sub_eq_zero_of_le h, List.drop_zero]

/-- No element has the key of one of the `cap` elements before it. -/
def Spaced (key : α → κ) (cap : Nat) (l : List α) : Prop :=
  ∀ front a rest, l = front ++ a :: rest → key a ∉ (front.rtake cap).map key

variable {key : α → κ} {cap : Nat}

theorem Spaced.nil : Spaced key cap [] := by
  intro front a rest h
  simp at h

/-- A new element only has to differ from the window. -/
theorem Spaced.concat {l : List α} (h : Spaced key cap l) {a : α} (ha : key a ∉ (l.rtake cap).map key) :
    Spaced key cap (l ++ [a]) := by
  intro front b rest hsplit
  cases rest using List.reverseRecOn with
  | nil =>
    obtain ⟨rfl, hb⟩ := List.append_inj' hsplit rfl
    obtain rfl := List.singleton_inj.mp hb
    exact ha
  | append_singleton rest last =>
    rw [← List.cons_append, ← List.append_assoc] at hsplit
    exact h front b rest (List.append_inj' hsplit rfl).1

theorem Spaced.of_suffix {l l' : List α} (h : Spaced key cap l) (hsuffix : l' <:+ l) : Spaced key cap l' := by
  obtain ⟨older, rfl⟩ := hsuffix
  rintro front a rest rfl hmem
  refine h (older ++ front) a rest (List.append_assoc ..).symm ?_
  exact List.map_subset key (rtake_suffix_rtake (List.suffix_append older front) cap).subset hmem

theorem Spaced.of_prefix {l l' : List α} (h : Spaced key cap l) (hbegins : l' <+: l) : Spaced key cap l' := by
  obtain ⟨newer, rfl⟩ := hbegins
  rintro front a rest rfl
  exact h front a (rest ++ newer) (List.append_assoc ..)

/-- Within one window no key occurs twice. -/
theorem Spaced.nodup {l : List α} (h : Spaced key cap l) (hlength : l.length ≤ cap) : (l.map key).Nodup := by
  induction l using List.reverseRecOn with
  | nil => exact List.nodup_nil
  | append_singleton l a ih =>
    rw [List.length_append, List.length_singleton] at hlength
    have hnew := h l a [] rfl
    rw [rtake_of_length_le (by omega)] at hnew
    rw [List.map_append, List.map_singleton, List.nodup_append_comm]
    exact List.nodup_cons.mpr ⟨hnew, ih (h.of_prefix (List.prefix_append l [a])) (by omega)⟩

end recent
