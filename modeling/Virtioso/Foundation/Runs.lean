import Mathlib.Logic.Basic

/-! Deterministic labelled machines and the states their runs reach.

A machine is a partial step function over actions. `Reach` collects the states
of all runs whose steps meet a side condition, which may depend on the state
before the step; with the condition `True` it is plain reachability.
-/

set_option autoImplicit false

namespace Virtioso.Foundation

variable {S A : Type}

/-- States reached from `start` by enabled steps that all satisfy `allowed`. -/
inductive Reach (step : S → A → Option S) (allowed : S → A → Prop) (start : S) : S → Prop where
  | start : Reach step allowed start start
  | next {s t : S} {a : A} : Reach step allowed start s → allowed s a → step s a = some t →
      Reach step allowed start t

def anyStep (_ : S) (_ : A) : Prop := True

instance (s : S) (a : A) : Decidable (anyStep s a) := .isTrue trivial

/-- Execute a fixed list of actions; a disabled action ends in `none`. -/
def execute (step : S → A → Option S) : S → List A → Option S
  | s, [] => some s
  | s, a :: rest => (step s a).bind fun t => execute step t rest

variable {step : S → A → Option S} {allowed : S → A → Prop} {start : S}

/-- An invariant of every allowed step holds in every reached state. -/
theorem Reach.invariant {P : S → Prop} (initial : P start)
    (preserved : ∀ s a t, P s → allowed s a → step s a = some t → P t)
    {s : S} (reached : Reach step allowed start s) : P s := by
  induction reached with
  | start => exact initial
  | next _ admitted edge ih => exact preserved _ _ _ ih admitted edge

theorem Reach.trans {s t : S} (first : Reach step allowed start s) (rest : Reach step allowed s t) :
    Reach step allowed start t := by
  induction rest with
  | start => exact first
  | next _ admitted edge ih => exact .next ih admitted edge

/-- Whatever is pending can be settled one by one, if settling one leaves nothing new pending
and keeps what the rest needs. The index of `good` counts how many are left to settle. -/
theorem settle_all {ι : Type} (pending : S → ι → Prop) (good : Nat → S → Prop) (related : S → S → Prop)
    (here : ∀ s, related s s) (trans : ∀ {s t u}, related s t → related t u → related s u)
    (fewer : ∀ {n s}, good (n + 1) s → good n s)
    (one : ∀ {n s i}, good (n + 1) s → pending s i →
      ∃ t, related s t ∧ good n t ∧ ∀ j, pending t j → pending s j ∧ j ≠ i) :
    ∀ (all : List ι) (s : S), good all.length s → (∀ i, pending s i → i ∈ all) →
      ∃ t, related s t ∧ good 0 t ∧ ∀ i, ¬pending t i := by
  intro all
  induction all with
  | nil => exact fun s holds named => ⟨s, here s, holds, fun i waits => by simpa using named i waits⟩
  | cons i rest ih =>
    intro s holds named
    by_cases waits : pending s i
    · obtain ⟨t, first, kept, left⟩ := one holds waits
      have named' : ∀ j, pending t j → j ∈ rest := fun j waits' =>
        (List.mem_cons.mp (named j (left j waits').1)).resolve_left (left j waits').2
      obtain ⟨u, later, done⟩ := ih t kept named'
      exact ⟨u, trans first later, done⟩
    · refine ih s (fewer holds) fun j waits' => (List.mem_cons.mp (named j waits')).resolve_left ?_
      rintro rfl
      exact waits waits'

def guarded (step : S → A → Option S) (allowed : S → A → Prop) [∀ s a, Decidable (allowed s a)]
    (s : S) (a : A) : Option S :=
  if allowed s a then step s a else none

theorem Reach.of_execute [∀ s a, Decidable (allowed s a)] {actions : List A} {t : S}
    (executed : execute (guarded step allowed) start actions = some t) :
    Reach step allowed start t := by
  induction actions generalizing start with
  | nil =>
    cases executed
    exact .start
  | cons action rest ih =>
    obtain ⟨next, edge, tail⟩ := Option.bind_eq_some_iff.mp executed
    obtain ⟨admitted, edge⟩ := Option.ite_none_right_eq_some.mp edge
    exact Reach.trans (.next .start admitted edge) (ih tail)

/-! ### Runs of a machine whose every call returns -/

/-- Every step of the run meets `P`, in the state it starts from. -/
def Along (next : S → A → S) (P : S → A → Prop) : S → List A → Prop
  | _, [] => True
  | s, a :: rest => P s a ∧ Along next P (next s a) rest

instance Along.decidable (next : S → A → S) (P : S → A → Prop) [∀ s a, Decidable (P s a)] :
    (s : S) → (actions : List A) → Decidable (Along next P s actions)
  | _, [] => .isTrue trivial
  | s, a :: rest =>
      have := Along.decidable next P (next s a) rest
      inferInstanceAs (Decidable (_ ∧ _))

theorem along_snoc {next : S → A → S} {P : S → A → Prop} {s : S} {actions : List A} {last : A} :
    Along next P s (actions ++ [last]) ↔ Along next P s actions ∧ P (actions.foldl next s) last := by
  induction actions generalizing s with
  | nil => exact (and_iff_left trivial).trans (and_iff_right trivial).symm
  | cons action rest ih =>
    rw [List.cons_append, Along, Along, ih, and_assoc]
    rfl

theorem along_invariant {next : S → A → S} {P : S → A → Prop} {I : S → Prop}
    (preserved : ∀ s a, I s → P s a → I (next s a)) {s : S} (holds : I s) {actions : List A}
    (given : Along next P s actions) : I (actions.foldl next s) := by
  induction actions generalizing s with
  | nil => exact holds
  | cons action rest ih => exact ih (preserved s action holds given.1) given.2

/-- Two properties of the steps of a run hold of the same runs if an invariant makes them
agree step by step; it has to survive the steps that meet the second. -/
theorem along_iff {next : S → A → S} {P Q R : S → A → Prop} {I : S → Prop}
    (agree : ∀ s a, I s → R s a → (P s a ↔ Q s a))
    (preserved : ∀ s a, I s → R s a → Q s a → I (next s a))
    {s : S} (holds : I s) {actions : List A} (given : Along next R s actions) :
    Along next P s actions ↔ Along next Q s actions := by
  induction actions generalizing s with
  | nil => exact Iff.rfl
  | cons action rest ih =>
    obtain ⟨here, later⟩ := given
    have first := agree s action holds here
    constructor
    · rintro ⟨p, ps⟩
      have q := first.mp p
      exact ⟨q, (ih (preserved s action holds here q) later).mp ps⟩
    · rintro ⟨q, qs⟩
      exact ⟨first.mpr q, (ih (preserved s action holds here q) later).mpr qs⟩

/-- Two machines in related states meet their properties along the same actions. -/
theorem along_related {T : Type} {next : S → A → S} {next' : T → A → T} {P R : S → A → Prop} {Q : T → A → Prop}
    {related : S → T → Prop} (agree : ∀ s t a, related s t → R s a → (P s a ↔ Q t a))
    (preserved : ∀ s t a, related s t → R s a → related (next s a) (next' t a))
    {s : S} {t : T} (holds : related s t) {actions : List A} (given : Along next R s actions) :
    Along next P s actions ↔ Along next' Q t actions := by
  induction actions generalizing s t with
  | nil => exact Iff.rfl
  | cons action rest ih =>
    obtain ⟨here, later⟩ := given
    exact and_congr (agree s t action holds here) (ih (preserved s t action holds here) later)

theorem along_congr {next : S → A → S} {P Q : S → A → Prop} (agree : ∀ s a, P s a ↔ Q s a) (s : S)
    (actions : List A) : Along next P s actions ↔ Along next Q s actions := by
  induction actions generalizing s with
  | nil => exact Iff.rfl
  | cons action rest ih => exact and_congr (agree s action) (ih (next s action))

end Virtioso.Foundation
