import YtWebsub.Base.Search

open rust.utf8

/-! Replacing several patterns by single elements: in one pass, and one after the other. -/

namespace rewrite

variable {α : Type} [DecidableEq α]

/-- A pattern, and what replaces it. -/
abbrev Rule (α : Type) := List α × α

/-- The first rule whose pattern stands at the front. -/
def matching (rules : List (Rule α)) (s : List α) : Option (Rule α) :=
  rules.find? fun r => r.1.isPrefixOf s

theorem matching_eq_some {rules : List (Rule α)} {s : List α} {r : Rule α} (h : matching rules s = some r) :
    r ∈ rules ∧ ∃ rest, r.1 ++ rest = s := by
  unfold matching at h
  exact ⟨List.mem_of_find?_eq_some h, List.isPrefixOf_iff_prefix.mp (by simpa using List.find?_some h)⟩

/-- The pass after `skip` elements of a match are still to be passed over. -/
def passFrom (rules : List (Rule α)) : Nat → List α → List α
  | _, [] => []
  | skip + 1, _ :: s => passFrom rules skip s
  | 0, c :: s =>
    match matching rules (c :: s) with
    | some r => r.2 :: passFrom rules (r.1.length - 1) s
    | none => c :: passFrom rules 0 s

/-- One pass from left to right: a pattern is replaced where it stands, and what replaced
it is not read again. -/
def pass (rules : List (Rule α)) (s : List α) : List α :=
  passFrom rules 0 s

theorem passFrom_drop (rules : List (Rule α)) (skip : Nat) (s : List α) :
    passFrom rules skip s = pass rules (s.drop skip) := by
  induction skip generalizing s with
  | zero => rfl
  | succ skip ih =>
    cases s with
    | nil => rfl
    | cons c s => exact ih s

@[simp]
theorem pass_nil (rules : List (Rule α)) : pass rules [] = [] := rfl

theorem pass_no_rules (s : List α) : pass [] s = s := by
  induction s with
  | nil => rfl
  | cons c s ih => exact congrArg (c :: ·) ih

theorem pass_of_none {rules : List (Rule α)} {c : α} {s : List α} (h : matching rules (c :: s) = none) :
    pass rules (c :: s) = c :: pass rules s := by
  rw [pass, passFrom, h]
  rfl

/-- The patterns begin with a mark that they do not contain again. -/
def Marked (mark : α) (rules : List (Rule α)) : Prop :=
  ∀ r ∈ rules, ∃ body, r.1 = mark :: body ∧ mark ∉ body

theorem pass_of_some {mark : α} {rules : List (Rule α)} (hmarked : Marked mark rules) {r : Rule α} {rest : List α}
    (h : matching rules (r.1 ++ rest) = some r) : pass rules (r.1 ++ rest) = r.2 :: pass rules rest := by
  obtain ⟨body, hbody, _⟩ := hmarked r (matching_eq_some h).1
  rw [hbody, List.cons_append] at h ⊢
  rw [pass, passFrom, h]
  simp only [hbody, passFrom_drop, List.length_cons, Nat.add_sub_cancel, List.drop_left]

theorem matching_append (rules rules' : List (Rule α)) (s : List α) :
    matching (rules ++ rules') s = (matching rules s).or (matching rules' s) :=
  List.find?_append

/-- Nothing is replaced where there is no mark. -/
theorem matching_of_ne {mark : α} {rules : List (Rule α)} (hmarked : Marked mark rules) {c : α} (hc : c ≠ mark)
    (s : List α) : matching rules (c :: s) = none := by
  apply List.find?_eq_none.mpr
  intro r hr hbegins
  obtain ⟨body, hbody, _⟩ := hmarked r hr
  rw [hbody, List.isPrefixOf_iff_prefix, List.cons_prefix_cons] at hbegins
  exact hc hbegins.1.symm

theorem pass_skip {mark : α} {rules : List (Rule α)} (hmarked : Marked mark rules) {t : List α} (ht : mark ∉ t)
    (s : List α) : pass rules (t ++ s) = t ++ pass rules s := by
  induction t with
  | nil => rfl
  | cons c t ih =>
    obtain ⟨hc, ht⟩ := not_or.mp (List.mem_cons.not.mp ht)
    rw [List.cons_append, pass_of_none (matching_of_ne hmarked (Ne.symm hc) _), ih ht]
    rfl

/-- What the pass wrote stands at no front that holds none of the replacements. -/
theorem prefix_of_prefix_pass {rules : List (Rule α)} {w s : List α} (hw : ∀ r ∈ rules, r.2 ∉ w)
    (h : w <+: pass rules s) : w <+: s := by
  induction w generalizing s with
  | nil => exact List.nil_prefix
  | cons a w ih =>
    cases s with
    | nil => exact h
    | cons c s =>
      cases hmatch : matching rules (c :: s) with
      | some r =>
        rw [pass, passFrom, hmatch, List.cons_prefix_cons] at h
        exact absurd (h.1 ▸ List.mem_cons_self) (hw r (matching_eq_some hmatch).1)
      | none =>
        rw [pass_of_none hmatch, List.cons_prefix_cons] at h
        exact List.cons_prefix_cons.mpr
          ⟨h.1, ih (fun r hr hmem => hw r hr (List.mem_cons_of_mem _ hmem)) h.2⟩

/-- A pass with one more rule is that pass, then one with the new rule, if no earlier rule
writes anything of its pattern. -/
theorem pass_concat {mark : α} {rules : List (Rule α)} {r : Rule α} (hmarked : Marked mark (rules ++ [r]))
    (hinert : ∀ q ∈ rules, q.2 ∉ r.1) (s : List α) : pass [r] (pass rules s) = pass (rules ++ [r]) s := by
  have hrules : Marked mark rules := fun q hq => hmarked q (List.mem_append_left _ hq)
  have hlast : Marked mark [r] := fun q hq => hmarked q (List.mem_append_right _ hq)
  obtain ⟨body, hbody, hnot⟩ := hlast r (List.mem_singleton_self r)
  induction hlength : s.length using Nat.strong_induction_on generalizing s with
  | _ length ih =>
    cases s with
    | nil => rfl
    | cons c s =>
      have happend := matching_append rules [r] (c :: s)
      cases hmatch : matching rules (c :: s) with
      | some q =>
        -- An earlier rule: what it writes is not the mark.
        obtain ⟨hq, rest, hrest⟩ := matching_eq_some hmatch
        obtain ⟨qbody, hqbody, _⟩ := hrules q hq
        have hshort : rest.length < length := by
          rw [← hlength, ← hrest, hqbody, List.length_append, List.length_cons]
          omega
        have hne : q.2 ≠ mark := fun heq => hinert q hq (by rw [hbody, heq]; exact List.mem_cons_self)
        rw [hmatch, Option.some_or] at happend
        rw [← hrest] at hmatch happend ⊢
        rw [pass_of_some hrules hmatch, pass_of_none (matching_of_ne hlast hne _), pass_of_some hmarked happend,
          ih _ hshort rest rfl]
      | none =>
        rw [hmatch, Option.none_or] at happend
        cases hnew : matching [r] (c :: s) with
        | some q =>
          -- The new rule: nothing in its pattern is a match of an earlier one.
          obtain ⟨hq, rest, hrest⟩ := matching_eq_some hnew
          obtain rfl := List.mem_singleton.mp hq
          have hshort : rest.length < length := by
            rw [← hlength, ← hrest, hbody, List.length_append, List.length_cons]
            omega
          have hkept : pass rules (q.1 ++ rest) = q.1 ++ pass rules rest := by
            rw [← hrest, hbody, List.cons_append] at hmatch
            rw [hbody, List.cons_append, pass_of_none hmatch, pass_skip hrules hnot]
            rfl
          have hagain : matching [q] (q.1 ++ pass rules rest) = some q := by
            simp [matching]
          rw [hnew] at happend
          rw [← hrest] at happend ⊢
          rw [hkept, pass_of_some hlast hagain, pass_of_some hmarked happend, ih _ hshort rest rfl]
        | none =>
          have hshort : s.length < length := by
            rw [← hlength, List.length_cons]
            omega
          have hnone : matching [r] (c :: pass rules s) = none := by
            apply List.find?_eq_none.mpr
            intro q hq hbegins
            obtain rfl := List.mem_singleton.mp hq
            rw [hbody, List.isPrefixOf_iff_prefix, List.cons_prefix_cons] at hbegins
            have hw : ∀ p ∈ rules, p.2 ∉ body := fun p hp hmem =>
              hinert p hp (by rw [hbody]; exact List.mem_cons_of_mem _ hmem)
            have hstood : q.1 <+: c :: s := by
              rw [hbody]
              exact List.cons_prefix_cons.mpr ⟨hbegins.1, prefix_of_prefix_pass hw hbegins.2⟩
            exact List.find?_eq_none.mp hnew q hq (List.isPrefixOf_iff_prefix.mpr hstood)
          rw [pass_of_none hmatch, pass_of_none hnone, pass_of_none (happend.trans hnew), ih _ hshort s rfl]

/-- No rule writes anything of the patterns of later ones. -/
def Inert (rules : List (Rule α)) : Prop :=
  rules.Pairwise fun q r => q.2 ∉ r.1

/-- One pass for each rule, in order, is one pass for all of them. -/
theorem foldl_pass {mark : α} {rules : List (Rule α)} (hmarked : Marked mark rules) (hinert : Inert rules)
    (s : List α) : rules.foldl (fun s r => pass [r] s) s = pass rules s := by
  induction rules using List.reverseRecOn with
  | nil => exact (pass_no_rules s).symm
  | append_singleton rules r ih =>
    obtain ⟨hrules, _, hlast⟩ := List.pairwise_append.mp hinert
    rw [List.foldl_append, List.foldl_cons, List.foldl_nil,
      ih (fun q hq => hmarked q (List.mem_append_left _ hq)) hrules,
      pass_concat hmarked fun q hq => hlast q hq r (List.mem_singleton_self r)]

end rewrite

namespace rust.text

open rewrite

/-- `str::replace` by one character is a pass with one rule. -/
theorem replace_eq_pass (s pattern : Text) (c : Char) : replace s pattern [c] = pass [(pattern, c)] s := by
  have hloop : ∀ skip s, replaceLoop pattern [c] skip s = passFrom [(pattern, c)] skip s := by
    intro skip s
    induction s generalizing skip with
    | nil => cases skip <;> rfl
    | cons d s ih =>
      cases skip with
      | zero =>
        rw [replaceLoop, passFrom]
        by_cases hmatch : pattern.isPrefixOf (d :: s) = true
        · simp [matching, hmatch, ih]
        · simp [matching, hmatch, ih]
      | succ skip => exact ih skip
  exact hloop 0 s

end rust.text
