import Mathlib

namespace machine

/-- One step per action; `none` where the action is not enabled. -/
abbrev Step (S A : Type) := S → A → Option S

variable {S A : Type} (step : Step S A)

/-- The actions lead from the first state to the second. -/
def Run (s : S) (actions : List A) (s' : S) : Prop :=
  actions.foldlM step s = some s'

/-- Every step of the run meets a condition on the state before it and the action. -/
def Along (P : S → A → Prop) : S → List A → Prop
  | _, [] => True
  | s, a :: actions => P s a ∧ ∀ s', step s a = some s' → Along P s' actions

variable {step}

@[simp]
theorem run_nil {s s' : S} : Run step s [] s' ↔ s = s' := by
  simp [Run]

@[simp]
theorem run_cons {s s' : S} {a : A} {actions : List A} :
    Run step s (a :: actions) s' ↔ ∃ mid, step s a = some mid ∧ Run step mid actions s' := by
  simp [Run, Option.bind_eq_some_iff]

theorem run_append {s s' : S} {first second : List A} :
    Run step s (first ++ second) s' ↔ ∃ mid, Run step s first mid ∧ Run step mid second s' := by
  simp [Run, List.foldlM_append, Option.bind_eq_some_iff]

theorem run_singleton {s s' : S} {a : A} : Run step s [a] s' ↔ step s a = some s' := by
  simp

/-- A run with fixed actions is found by evaluating it. -/
theorem exists_run (step : Step S A) {p : S → Bool} {s : S} {actions : List A}
    (h : (actions.foldlM step s).any p = true) :
    ∃ s', Run step s actions s' ∧ p s' = true := by
  rw [Option.any_eq_true] at h
  exact h

instance Along.decidable {P : S → A → Prop} [∀ s a, Decidable (P s a)] :
    ∀ s actions, Decidable (Along step P s actions)
  | _, [] => isTrue trivial
  | s, a :: actions =>
    match hstep : step s a with
    | none => decidable_of_iff (P s a) (by simp [Along, hstep])
    | some s' =>
      have := Along.decidable (P := P) s' actions
      decidable_of_iff (P s a ∧ Along step P s' actions) (by simp [Along, hstep])

/-- Steps are deterministic, so a run is checked state by state. -/
theorem Along.cons {P : S → A → Prop} {s mid : S} {a : A} {actions : List A} (ha : P s a)
    (hstep : step s a = some mid) (hrest : Along step P mid actions) : Along step P s (a :: actions) := by
  refine ⟨ha, fun s' hs' => ?_⟩
  rw [hstep, Option.some.injEq] at hs'
  exact hs' ▸ hrest

theorem Along.append {P : S → A → Prop} {s mid : S} {first second : List A}
    (h : Along step P s (first ++ second)) (hrun : Run step s first mid) : Along step P mid second := by
  induction first generalizing s with
  | nil =>
    rw [run_nil] at hrun
    exact hrun ▸ h
  | cons a first ih =>
    obtain ⟨next, hstep, hrest⟩ := run_cons.mp hrun
    exact ih (h.2 next hstep) hrest

/-- A condition that holds along a run and along what follows holds along both. -/
theorem Along.join {P : S → A → Prop} {s mid : S} {first second : List A} (hfirst : Along step P s first)
    (hrun : Run step s first mid) (hsecond : Along step P mid second) : Along step P s (first ++ second) := by
  induction first generalizing s with
  | nil =>
    rw [run_nil] at hrun
    exact hrun ▸ hsecond
  | cons a first ih =>
    obtain ⟨next, hstep, hrest⟩ := run_cons.mp hrun
    exact .cons hfirst.1 hstep (ih (hfirst.2 next hstep) hrest)

theorem Along.and {P Q : S → A → Prop} {s : S} {actions : List A} (hP : Along step P s actions)
    (hQ : Along step Q s actions) : Along step (fun s a => P s a ∧ Q s a) s actions := by
  induction actions generalizing s with
  | nil => trivial
  | cons a actions ih => exact ⟨⟨hP.1, hQ.1⟩, fun next hstep => ih (hP.2 next hstep) (hQ.2 next hstep)⟩

/-- What every step meeting the condition preserves holds at the end of every run of
such steps. -/
theorem Run.invariant_along {P : S → A → Prop} (I : S → Prop)
    (hstep : ∀ s a s', I s → P s a → step s a = some s' → I s') {s s' : S} {actions : List A}
    (hrun : Run step s actions s') (halong : Along step P s actions) (hinit : I s) : I s' := by
  induction actions generalizing s with
  | nil => exact run_nil.mp hrun ▸ hinit
  | cons a actions ih =>
    obtain ⟨next, hnext, hrest⟩ := run_cons.mp hrun
    exact ih hrest (halong.2 next hnext) (hstep s a next hinit halong.1 hnext)

/-- Along a run whose steps keep an invariant, one condition on the steps gives another. -/
theorem Along.of_invariant {P Q : S → A → Prop} (I : S → Prop)
    (hstep : ∀ s a s', I s → P s a → step s a = some s' → I s') (hPQ : ∀ s a, I s → P s a → Q s a)
    {s : S} {actions : List A} (halong : Along step P s actions) (hinit : I s) : Along step Q s actions := by
  induction actions generalizing s with
  | nil => trivial
  | cons a actions ih =>
    refine ⟨hPQ s a hinit halong.1, fun s' hs' => ?_⟩
    exact ih (halong.2 s' hs') (hstep s a s' hinit halong.1 hs')

theorem Along.mono {P Q : S → A → Prop} (hPQ : ∀ s a, P s a → Q s a) {s : S} {actions : List A}
    (h : Along step P s actions) : Along step Q s actions :=
  h.of_invariant (fun _ => True) (fun _ _ _ _ _ _ => trivial) (fun s a _ => hPQ s a) trivial

/-- Along a run whose steps keep an invariant, one condition on the steps that are taken
gives another. -/
theorem Run.along_imp {P Q : S → A → Prop} (I : S → Prop)
    (hstep : ∀ s a s', I s → P s a → step s a = some s' → I s')
    (hPQ : ∀ s a s', I s → step s a = some s' → P s a → Q s a) {s s' : S} {actions : List A}
    (hrun : Run step s actions s') (hinit : I s) (halong : Along step P s actions) : Along step Q s actions := by
  induction actions generalizing s with
  | nil => trivial
  | cons a actions ih =>
    obtain ⟨next, hnext, hrest⟩ := run_cons.mp hrun
    exact .cons (hPQ s a next hinit hnext halong.1) hnext
      (ih hrest (hstep s a next hinit halong.1 hnext) (halong.2 next hnext))

/-- Conditions that agree at every step that can be taken where an invariant holds agree
along a run. -/
theorem Run.along_congr {P Q : S → A → Prop} (I : S → Prop) (hstep : ∀ s a s', I s → step s a = some s' → I s')
    (hPQ : ∀ s a s', I s → step s a = some s' → (P s a ↔ Q s a)) {s s' : S} {actions : List A}
    (hrun : Run step s actions s') (hinit : I s) : Along step P s actions ↔ Along step Q s actions :=
  ⟨hrun.along_imp I (fun s a s' hI _ => hstep s a s' hI) (fun s a s' hI hs => (hPQ s a s' hI hs).mp) hinit,
    hrun.along_imp I (fun s a s' hI _ => hstep s a s' hI) (fun s a s' hI hs => (hPQ s a s' hI hs).mpr) hinit⟩

/-- Conditions that agree wherever an invariant holds agree along every run. -/
theorem along_congr {P Q : S → A → Prop} (I : S → Prop) (hstep : ∀ s a s', I s → step s a = some s' → I s')
    (hPQ : ∀ s a, I s → (P s a ↔ Q s a)) {s : S} {actions : List A} (hinit : I s) :
    Along step P s actions ↔ Along step Q s actions :=
  ⟨fun h => h.of_invariant I (fun s a s' hI _ => hstep s a s' hI) (fun s a hI => (hPQ s a hI).mp) hinit,
    fun h => h.of_invariant I (fun s a s' hI _ => hstep s a s' hI) (fun s a hI => (hPQ s a hI).mpr) hinit⟩

theorem Along.of_forall {P : S → A → Prop} {actions : List A} (h : ∀ a ∈ actions, ∀ s, P s a) (s : S) :
    Along step P s actions := by
  induction actions generalizing s with
  | nil => trivial
  | cons a actions ih =>
    obtain ⟨ha, hrest⟩ := List.forall_mem_cons.mp h
    exact ⟨ha s, fun next _ => ih hrest next⟩

/-- What every step preserves holds at the end of every run. -/
theorem Run.invariant (I : S → Prop) (hstep : ∀ s a s', I s → step s a = some s' → I s')
    {s s' : S} {actions : List A} (hrun : Run step s actions s') (hinit : I s) : I s' :=
  hrun.invariant_along I (P := fun _ _ => True) (fun s a s' hI _ h => hstep s a s' hI h)
    (.of_forall (fun _ _ _ => trivial) s) hinit

variable {T B : Type} {step' : Step T B}

/-- A machine whose every step, where an invariant holds, is a run of another machine has
runs of the other machine for its runs. -/
theorem Run.simulated {P : S → A → Prop} (I : S → Prop) (view : S → T)
    (hstep : ∀ s a s', I s → P s a → step s a = some s' → I s' ∧ ∃ moves, Run step' (view s) moves (view s'))
    {s s' : S} {actions : List A} (hrun : Run step s actions s') (halong : Along step P s actions) (hinit : I s) :
    ∃ moves, Run step' (view s) moves (view s') := by
  induction actions generalizing s with
  | nil => exact ⟨[], run_nil.mpr (congrArg view (run_nil.mp hrun))⟩
  | cons a actions ih =>
    obtain ⟨next, hnext, hrest⟩ := run_cons.mp hrun
    obtain ⟨hinv, moves, hmoves⟩ := hstep s a next hinit halong.1 hnext
    obtain ⟨later, hlater⟩ := ih hrest (halong.2 next hnext) hinv
    exact ⟨moves ++ later, run_append.mpr ⟨_, hmoves, hlater⟩⟩

variable {H : Type}

/-- A machine that also keeps a record of what has happened so far. -/
def traced (step : Step S A) (record : H → S → A → H) : Step (S × H) A := fun sh a =>
  (step sh.1 a).map fun s' => (s', record sh.2 sh.1 a)

theorem traced_eq_some {record : H → S → A → H} {sh sh' : S × H} {a : A} :
    traced step record sh a = some sh' ↔ step sh.1 a = some sh'.1 ∧ record sh.2 sh.1 a = sh'.2 := by
  rw [traced, Option.map_eq_some_iff]
  constructor
  · rintro ⟨s', hs', rfl⟩
    exact ⟨hs', rfl⟩
  · rintro ⟨hs', hrecord⟩
    exact ⟨sh'.1, hs', Prod.ext rfl hrecord⟩

/-- The record allows every run and adds none. -/
theorem exists_run_traced {record : H → S → A → H} {s s' : S} {h : H} {actions : List A} :
    (∃ h', Run (traced step record) (s, h) actions (s', h')) ↔ Run step s actions s' := by
  induction actions generalizing s h with
  | nil => simp only [run_nil, Prod.mk.injEq, exists_and_left, exists_eq', and_true]
  | cons a actions ih =>
    constructor
    · rintro ⟨h', hrun⟩
      obtain ⟨mid, hmid, hrest⟩ := run_cons.mp hrun
      exact run_cons.mpr ⟨mid.1, (traced_eq_some.mp hmid).1, ih.mp ⟨h', hrest⟩⟩
    · intro hrun
      obtain ⟨mid, hmid, hrest⟩ := run_cons.mp hrun
      obtain ⟨h', hrest'⟩ := (ih (h := record h s a)).mpr hrest
      exact ⟨h', run_cons.mpr ⟨(mid, record h s a), traced_eq_some.mpr ⟨hmid, rfl⟩, hrest'⟩⟩

end machine
