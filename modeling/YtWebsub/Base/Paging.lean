import Mathlib

namespace paging

variable {α κ : Type} {key : α → κ}

/-- The cursor after a page: the last key received, if any. -/
def advance (key : α → κ) (cursor : κ) (received : List α) : κ :=
  (received.getLast?.map key).getD cursor

/-- The cursor stays where it was, or moves to a received key. -/
theorem advance_cases (key : α → κ) (cursor : κ) (received : List α) :
    (received = [] ∧ advance key cursor received = cursor) ∨
      ∃ a ∈ received, advance key cursor received = key a := by
  cases hlast : received.getLast? with
  | none => exact Or.inl ⟨List.getLast?_eq_none_iff.mp hlast, by rw [advance, hlast]; rfl⟩
  | some a => exact Or.inr ⟨a, List.mem_of_getLast? hlast, by rw [advance, hlast]; rfl⟩

variable [LinearOrder κ] (key)

/-- Keys strictly increase along the list. -/
def Increasing (l : List α) : Prop :=
  l.Pairwise fun a b => key a < key b

/-- What a client that has everything up to `cursor` is sent: the first `max` later elements. -/
def page (cursor : κ) (max : Nat) (l : List α) : List α :=
  (l.filter fun a => cursor < key a).take max

variable {key}

theorem Increasing.of_suffix {l l' : List α} (h : Increasing key l) (hsuffix : l' <:+ l) : Increasing key l' :=
  h.sublist hsuffix.sublist

theorem Increasing.append_singleton {l : List α} {x : α} (h : Increasing key l) (hx : ∀ a ∈ l, key a < key x) :
    Increasing key (l ++ [x]) := by
  rw [Increasing, List.pairwise_append]
  refine ⟨h, List.pairwise_singleton _ _, fun a ha b hb => ?_⟩
  rw [List.mem_singleton.mp hb]
  exact hx a ha

/-- A key determines its element. -/
theorem Increasing.eq_of_key {l : List α} (h : Increasing key l) {a b : α} (ha : a ∈ l) (hb : b ∈ l)
    (hkey : key a = key b) : a = b :=
  List.inj_on_of_nodup_map (List.pairwise_map.mpr (h.imp ne_of_lt)) ha hb hkey

/-- Keeping the keys above a bound keeps an end of the list. -/
theorem Increasing.filter_suffix {l : List α} (h : Increasing key l) (bound : κ) :
    l.filter (fun a => bound < key a) <:+ l := by
  induction l with
  | nil => exact List.suffix_rfl
  | cons a l ih =>
    obtain ⟨hlater, hrest⟩ := List.pairwise_cons.mp h
    by_cases ha : bound < key a
    · have hall : ∀ b ∈ a :: l, decide (bound < key b) = true := by
        rw [List.forall_mem_cons]
        exact ⟨decide_eq_true ha, fun b hb => decide_eq_true (ha.trans (hlater b hb))⟩
      rw [List.filter_eq_self.mpr hall]
    · rw [List.filter_cons_of_neg (by simpa using ha)]
      exact (ih hrest).trans (List.suffix_cons a l)

theorem length_page (cursor : κ) (max : Nat) (l : List α) :
    (page key cursor max l).length = min max (l.filter fun a => cursor < key a).length :=
  List.length_take ..

theorem take_page (cursor : κ) (max n : Nat) (l : List α) :
    (page key cursor n l).take max = page key cursor (min max n) l :=
  List.take_take ..

/-- Pages of different sizes are the same where the list runs out first. -/
theorem page_eq_page_iff {cursor : κ} {max n : Nat} {l : List α} :
    page key cursor max l = page key cursor n l ↔
      min max (l.filter fun a => cursor < key a).length = min n (l.filter fun a => cursor < key a).length :=
  List.take_eq_take_iff

theorem mem_page {cursor : κ} {max : Nat} {l : List α} {a : α} (h : a ∈ page key cursor max l) :
    a ∈ l ∧ cursor < key a := by
  obtain ⟨hmem, hlater⟩ := List.mem_filter.mp (List.mem_of_mem_take h)
  exact ⟨hmem, of_decide_eq_true hlater⟩

theorem Increasing.page {l : List α} (h : Increasing key l) (cursor : κ) (max : Nat) :
    Increasing key (page key cursor max l) :=
  h.sublist ((List.take_sublist _ _).trans List.filter_sublist)

variable (key) in
/-- The cursor never goes back. -/
theorem le_advance_page (cursor : κ) (max : Nat) (l : List α) :
    cursor ≤ advance key cursor (paging.page key cursor max l) := by
  rcases advance_cases key cursor (paging.page key cursor max l) with ⟨_, hstay⟩ | ⟨a, ha, hmove⟩
  · exact hstay.ge
  · rw [hmove]
    exact (mem_page ha).2.le

/-- The cursor passes everything received. -/
theorem Increasing.le_advance {received : List α} (h : Increasing key received) (cursor : κ) {a : α}
    (ha : a ∈ received) : key a ≤ advance key cursor received := by
  induction received using List.reverseRecOn with
  | nil => cases ha
  | append_singleton front last ih =>
    rw [advance, List.getLast?_concat, Option.map_some, Option.getD_some]
    rw [Increasing, List.pairwise_append] at h
    rcases List.mem_append.mp ha with hfront | hlast
    · exact (h.2.2 a hfront last (List.mem_singleton_self last)).le
    · rw [List.mem_singleton.mp hlast]

/-- Nothing between the old cursor and the new one is left out of a page. -/
theorem Increasing.mem_page_of_le_advance {l : List α} (h : Increasing key l) {cursor : κ} {max : Nat} {a : α}
    (ha : a ∈ l) (hlater : cursor < key a) (hle : key a ≤ advance key cursor (paging.page key cursor max l)) :
    a ∈ paging.page key cursor max l := by
  have hfilter : a ∈ l.filter (fun a => cursor < key a) := List.mem_filter.mpr ⟨ha, decide_eq_true hlater⟩
  have hsorted : Increasing key (l.filter fun a => cursor < key a) := h.sublist List.filter_sublist
  rw [← List.take_append_drop max (l.filter _)] at hfilter hsorted
  apply (List.mem_append.mp hfilter).resolve_right
  intro hrest
  rw [Increasing, List.pairwise_append] at hsorted
  rcases advance_cases key cursor (paging.page key cursor max l) with ⟨_, hcursor⟩ | ⟨b, hb, hcursor⟩
  · rw [hcursor] at hle
    exact absurd hlater (not_lt.mpr hle)
  · rw [hcursor] at hle
    exact absurd (hsorted.2.2 b hb a hrest) (not_lt.mpr hle)

/-- An empty page means that nothing lies above the cursor. -/
theorem le_of_page_eq_nil {cursor : κ} {max : Nat} {l : List α} (hmax : 0 < max)
    (h : page key cursor max l = []) {a : α} (ha : a ∈ l) : key a ≤ cursor := by
  have hnone : l.filter (fun a => cursor < key a) = [] :=
    (List.take_eq_nil_iff.mp h).resolve_left (by omega)
  have hnot := List.filter_eq_nil_iff.mp hnone a ha
  simpa using hnot

end paging
