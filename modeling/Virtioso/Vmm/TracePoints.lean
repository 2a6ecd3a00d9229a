import Mathlib.Data.List.Nodup
import Virtioso.Foundation.Runs

/-! Names of trace points, as in `trace.c`.

The table is searched from index 1 on, since 0 stands for no index; it is filled
from index 0 on. The name that is entered first has index 0 and is never found again.
-/

set_option autoImplicit false

namespace Virtioso.Vmm

open Foundation

/-- `TRACE_POINT_MAX`. -/
abbrev tracePointMax : Nat := 256

/-- `trace_names` up to `trace_names_count`. -/
abbrev TraceNames := List (List Char)

/-- The loop of `trace_index` from `i` on. -/
def traceSearch (str : List Char) (i : Nat) : TraceNames → Option Nat
  | [] => none
  | name :: rest => if str = name then some i else traceSearch str (i + 1) rest

/-- `trace_index`; `none` where the table is full, which ends the program. -/
def traceIndex (traceNames : TraceNames) (str : List Char) : Option (TraceNames × Nat) :=
  match traceSearch str 1 (traceNames.drop 1) with
  | some i => some (traceNames, i)
  | none =>
      if traceNames.length = tracePointMax then none
      else some (traceNames ++ [str], (traceNames ++ [str]).length - 1)

/-- The table, and the calls with the index each returned, oldest first. -/
structure Tracing where
  traceNames : TraceNames
  answers : List (List Char × Nat)
  deriving DecidableEq

def Tracing.initial : Tracing := ⟨[], []⟩

def Tracing.call (s : Tracing) (str : List Char) : Option Tracing :=
  (traceIndex s.traceNames str).map fun (traceNames, i) => ⟨traceNames, s.answers ++ [(str, i)]⟩

/-- What the answers of `trace_index` have to be, with the table they leave. -/
structure Interned (traceNames : TraceNames) (answers : List (List Char × Nat)) : Prop where
  range : ∀ answer ∈ answers, 1 ≤ answer.2 ∧ answer.2 < tracePointMax
  same : ∀ first ∈ answers, ∀ second ∈ answers, first.2 = second.2 ↔ first.1 = second.1
  held : ∀ answer ∈ answers, traceNames[answer.2]? = some answer.1

instance (traceNames : TraceNames) (answers : List (List Char × Nat)) : Decidable (Interned traceNames answers) :=
  decidable_of_iff
    ((∀ answer ∈ answers, 1 ≤ answer.2 ∧ answer.2 < tracePointMax) ∧
      (∀ first ∈ answers, ∀ second ∈ answers, first.2 = second.2 ↔ first.1 = second.1) ∧
      ∀ answer ∈ answers, traceNames[answer.2]? = some answer.1)
    ⟨fun ⟨range, same, held⟩ => ⟨range, same, held⟩, fun interned => ⟨interned.range, interned.same, interned.held⟩⟩

section Search
variable {str : List Char} {names : TraceNames} {i k : Nat}

theorem traceSearch_some (found : traceSearch str i names = some k) : ∃ j, k = i + j ∧ names[j]? = some str := by
  induction names generalizing i with
  | nil => cases found
  | cons name rest ih =>
    unfold traceSearch at found
    split at found
    · next same =>
      cases found
      exact ⟨0, rfl, by rw [same]; rfl⟩
    · obtain ⟨j, index, here⟩ := ih found
      exact ⟨j + 1, by omega, here⟩

theorem traceSearch_none (missing : traceSearch str i names = none) : str ∉ names := by
  induction names generalizing i with
  | nil => exact List.not_mem_nil
  | cons name rest ih =>
    unfold traceSearch at missing
    split at missing
    · cases missing
    · next differs => exact List.not_mem_cons_of_ne_of_not_mem differs (ih missing)

end Search

inductive TraceEntry (first : List Char) (names : TraceNames) (str : List Char) : TraceNames → Nat → Prop where
  | known {j : Nat} : names[j]? = some str → TraceEntry first names str (first :: names) (j + 1)
  | new : str ∉ names → names.length + 1 < tracePointMax →
      TraceEntry first names str (first :: (names ++ [str])) (names.length + 1)

theorem traceIndex_cases {first str : List Char} {names next : TraceNames} {i : Nat}
    (room : names.length < tracePointMax) (answers : traceIndex (first :: names) str = some (next, i)) :
    TraceEntry first names str next i := by
  unfold traceIndex at answers
  rw [List.drop_succ_cons, List.drop_zero] at answers
  split at answers
  · next k found =>
    obtain ⟨j, index, here⟩ := traceSearch_some found
    cases answers
    rw [index, Nat.add_comm]
    exact .known here
  · next missing =>
    split at answers
    · cases answers
    · next space =>
      cases answers
      rw [List.length_cons] at space
      have small : names.length + 1 < tracePointMax := by omega
      have entered : TraceEntry first names str _ _ := .new (traceSearch_none missing) small
      simpa using entered

/-- After the first call the names behind the first one are distinct, and every later answer
is the index of its name among them. -/
inductive Traced : Tracing → Prop where
  | empty : Traced .initial
  | filled {first : List Char} {names : TraceNames} {later : List (List Char × Nat)} :
      names.Nodup → names.length < tracePointMax →
      (∀ answer ∈ later, ∃ j, answer.2 = j + 1 ∧ names[j]? = some answer.1) →
      Traced ⟨first :: names, (first, 0) :: later⟩

theorem Traced.call {s t : Tracing} {str : List Char} (traced : Traced s) (called : s.call str = some t) :
    Traced t := by
  obtain ⟨⟨next, i⟩, answers, rfl⟩ := Option.map_eq_some_iff.mp called
  cases traced with
  | empty =>
    cases answers
    exact .filled List.nodup_nil (by decide) nofun
  | @filled first names later distinct room older =>
    cases traceIndex_cases room answers with
    | @known j here =>
      refine .filled distinct room fun answer inside => ?_
      rcases List.mem_append.mp inside with old | new
      · exact older answer old
      · obtain rfl := List.mem_singleton.mp new
        exact ⟨j, rfl, here⟩
    | new missing small =>
      refine .filled (distinct.append (List.nodup_singleton _) ?_) ?_ fun answer inside => ?_
      · rw [List.disjoint_singleton]
        exact missing
      · rw [List.length_append, List.length_singleton]
        exact small
      · rcases List.mem_append.mp inside with old | new
        · obtain ⟨j, index, here⟩ := older answer old
          have below := (List.getElem?_eq_some_iff.mp here).1
          exact ⟨j, index, by rw [List.getElem?_append_left below, here]⟩
        · obtain rfl := List.mem_singleton.mp new
          exact ⟨names.length, rfl, List.getElem?_concat_length ..⟩

/-- The answers after the first are those of an interning table. -/
theorem interned_later {first : List Char} {names : TraceNames} {later : List (List Char × Nat)}
    (distinct : names.Nodup) (room : names.length < tracePointMax)
    (indexed : ∀ answer ∈ later, ∃ j, answer.2 = j + 1 ∧ names[j]? = some answer.1) :
    Interned (first :: names) later where
  range answer inside := by
    obtain ⟨j, index, here⟩ := indexed answer inside
    have below := (List.getElem?_eq_some_iff.mp here).1
    omega
  same a insideA b insideB := by
    obtain ⟨j, index, here⟩ := indexed a insideA
    obtain ⟨k, index', here'⟩ := indexed b insideB
    have below := (List.getElem?_eq_some_iff.mp here).1
    constructor
    · intro equal
      have position : j = k := by omega
      rw [position, here'] at here
      exact (Option.some.inj here).symm
    · intro equal
      -- a name is at one place only
      have position : j = k := (List.getElem?_inj below distinct).mp (by rw [here, here', equal])
      omega
  held answer inside := by
    obtain ⟨j, index, here⟩ := indexed answer inside
    rw [index, List.getElem?_cons_succ]
    exact here

/-- In every state that calls within the capacity reach, the answers are those of an interning
table if and only if there was no call yet; without the first answer they always are. -/
theorem trace_index_interns_iff {s : Tracing} (reached : Reach Tracing.call anyStep .initial s) :
    (Interned s.traceNames s.answers ↔ s.answers = []) ∧ Interned s.traceNames s.answers.tail := by
  have traced : Traced s := reached.invariant .empty fun _ _ _ traced _ called => traced.call called
  cases traced with
  | empty => exact ⟨⟨fun _ => rfl, fun _ => ⟨nofun, nofun, nofun⟩⟩, ⟨nofun, nofun, nofun⟩⟩
  | filled distinct room indexed =>
    refine ⟨⟨fun interned => ?_, fun none_yet => by cases none_yet⟩, interned_later distinct room indexed⟩
    have positive := (interned.range _ List.mem_cons_self).1
    cases positive

def tracedTwice : Tracing := ⟨["a".toList, "b".toList, "a".toList],
  [("a".toList, 0), ("b".toList, 1), ("a".toList, 2)]⟩

theorem tracedTwice_reached : Reach Tracing.call anyStep .initial tracedTwice := by
  have ran : execute (guarded Tracing.call anyStep) .initial ["a".toList, "b".toList, "a".toList] =
      some tracedTwice := by decide
  exact .of_execute ran

theorem trace_index_interns_twice :
    (Interned tracedTwice.traceNames tracedTwice.answers ↔ tracedTwice.answers = []) ∧
      Interned tracedTwice.traceNames tracedTwice.answers.tail :=
  trace_index_interns_iff tracedTwice_reached

/-- The first name gets index 0, and another index when it comes again. -/
theorem trace_index_not_interning : ¬∀ s, Reach Tracing.call anyStep .initial s → Interned s.traceNames s.answers := by
  intro interns
  have interned := interns tracedTwice tracedTwice_reached
  revert interned
  decide

end Virtioso.Vmm
