import Mathlib.Data.List.Count
import Mathlib.Data.List.Nodup
import Virtioso.Fdt.Nodes

/-! Which nodes the two generation functions reach.

With a filter the loop ends at the first node that is generated: what its generate
function returns is left where the condition of the loop expects the verdict of the
filter. Without a filter no node gets past that verdict.
-/

set_option autoImplicit false

namespace Virtioso.Fdt

variable {P Tree : Type} [DecidableEq P]

/-! ### Calls up to the first answer -/

section Reached
variable {calls : List (P × Int)}

omit [DecidableEq P] in
theorem reached_initial (calls : List (P × Int)) : reached calls <+: calls := by
  induction calls with
  | nil => exact List.prefix_refl _
  | cons call rest ih =>
    unfold reached
    split
    · exact (List.prefix_cons_inj call).mpr ih
    · exact ⟨rest, rfl⟩

omit [DecidableEq P] in
theorem failsFirst_iff : FailsFirst calls ↔ ∃ call ∈ reached calls, call.2 < 0 := by
  induction calls with
  | nil => simp [FailsFirst, reached]
  | cons call rest ih =>
    unfold FailsFirst reached
    by_cases silent : call.2 = 0
    · rw [List.find?_cons_of_neg (by simpa using silent), if_pos silent]
      refine ih.trans ⟨fun ⟨failed, inside, below⟩ => ⟨failed, List.mem_cons_of_mem _ inside, below⟩, ?_⟩
      rintro ⟨failed, inside, below⟩
      rcases List.mem_cons.mp inside with rfl | later
      · omega
      · exact ⟨failed, later, below⟩
    · rw [List.find?_cons_of_pos (by simpa using silent), if_neg silent]
      simp

omit [DecidableEq P] in
theorem attempts_fst (node : P → FdtNode Tree) (ptrs : List P) (fdt : Tree) :
    (attempts node ptrs fdt).map Prod.fst = ptrs := by
  induction ptrs generalizing fdt with
  | nil => rfl
  | cons ptr rest ih =>
    rw [attempts, List.map_cons, ih]

end Reached

/-! ### The loop with a filter -/

def mark (node : P → FdtNode Tree) (calls : List (P × Int)) : P → FdtNode Tree := fun ptr =>
  { node ptr with generated := (node ptr).generated || calls.any fun call => call.1 = ptr ∧ call.2 > 0 }

theorem mark_nil (node : P → FdtNode Tree) : mark node [] = node := by
  funext ptr
  simp [mark]

theorem mark_silent (node : P → FdtNode Tree) (ptr : P) (calls : List (P × Int)) :
    mark node ((ptr, 0) :: calls) = mark node calls := by
  funext other
  simp [mark]

theorem mark_one (node : P → FdtNode Tree) (ptr : P) {rc : Int} (generated : rc > 0) :
    mark node [(ptr, rc)] = Function.update node ptr { node ptr with generated := true } := by
  funext other
  by_cases same : ptr = other
  · subst same
    simp [mark, generated]
  · rw [Function.update_of_ne (Ne.symm same)]
    simp [mark, same]

theorem mark_not_generated (node : P → FdtNode Tree) (ptr : P) {rc : Int} (below : ¬rc > 0) :
    mark node [(ptr, rc)] = node := by
  funext other
  simp [mark, below]

/-- A node that the call is for has its generate function called, and is marked by what it returns. -/
theorem generate_due {compatible : String} {s : Nodes P Tree} {ptr : P} {fdt : Tree} {rc : Int}
    {generate : Tree → Tree × Int} (inside : isDue compatible (s.node ptr) = true)
    (equipped : (s.node ptr).generate = some generate) (returns : generate s.fdt = (fdt, rc)) :
    fdtNodeGenerate s ptr = ({ node := mark s.node [(ptr, rc)], fdt, calls := s.calls ++ [(ptr, rc)] }, rc) := by
  have unmarked : (s.node ptr).generated = false := by
    simp only [isDue, Bool.and_eq_true, Bool.not_eq_true'] at inside
    exact inside.2
  by_cases generated : rc > 0
  · simp [fdtNodeGenerate, equipped, unmarked, returns, generated, mark_one]
  · simp [fdtNodeGenerate, equipped, unmarked, returns, generated, mark_not_generated]

theorem generate_marked {s : Nodes P Tree} {ptr : P} {generate : Tree → Tree × Int}
    (equipped : (s.node ptr).generate = some generate) (marked : (s.node ptr).generated = true) :
    fdtNodeGenerate s ptr = (s, 0) := by
  simp [fdtNodeGenerate, equipped, marked]

structure Filtered (compatible : String) (table : List (Option P)) (s : Nodes P Tree)
    (result : Nodes P Tree × Int) : Prop where
  calls : result.1.calls = s.calls ++ reached (attempts s.node (due compatible s table) s.fdt)
  node : result.1.node = mark s.node (reached (attempts s.node (due compatible s table) s.fdt))
  code : result.2 ≠ 0 ↔ ∃ call ∈ reached (attempts s.node (due compatible s table) s.fdt), call.2 < 0

section Loop
variable {compatible : String} {rest : List (Option P)} {s t : Nodes P Tree} {ptr : P}

theorem loop_over (filterFn : Option (FdtNode Tree → Int)) (rest : List (Option P)) (s : Nodes P Tree) {rc : Int}
    (left : rc ≠ 0) : generateLoop filterFn rest s rc = (s, 0) := by
  cases rest with
  | nil => rfl
  | cons entry rest => cases entry with
    | none => rw [generateLoop, if_pos left]
    | some ptr => rw [generateLoop, if_pos left]

theorem loop_null (filterFn : Option (FdtNode Tree → Int)) (rest : List (Option P)) (s : Nodes P Tree) :
    generateLoop filterFn (none :: rest) s 0 = generateLoop filterFn rest s 0 := by
  rw [generateLoop, if_neg (not_not.mpr rfl)]

theorem loop_entry (compatible : String) (rest : List (Option P)) (s : Nodes P Tree) (ptr : P) :
    generateLoop (some (fdtNodeFilterCompatible (some compatible))) (some ptr :: rest) s 0 =
      if (s.node ptr).compatible = some compatible then
        if (fdtNodeGenerate s ptr).2 < 0 then ((fdtNodeGenerate s ptr).1, -1)
        else generateLoop (some (fdtNodeFilterCompatible (some compatible))) rest (fdtNodeGenerate s ptr).1
          (fdtNodeGenerate s ptr).2
      else generateLoop (some (fdtNodeFilterCompatible (some compatible))) rest s 0 := by
  rw [generateLoop]
  by_cases same : (s.node ptr).compatible = some compatible
  · simp [fdtNodeFilterCompatible, same]
  · simp [fdtNodeFilterCompatible, same]

omit [DecidableEq P] in
theorem due_skips (other : isDue compatible (s.node ptr) = false) :
    due compatible s (some ptr :: rest) = due compatible s rest := by
  simp [due, other]

omit [DecidableEq P] in
theorem due_takes (inside : isDue compatible (s.node ptr) = true) :
    due compatible s (some ptr :: rest) = ptr :: due compatible s rest := by
  simp [due, inside]

theorem Filtered.skip {result : Nodes P Tree × Int} (other : isDue compatible (s.node ptr) = false)
    (filtered : Filtered compatible rest s result) : Filtered compatible (some ptr :: rest) s result := by
  obtain ⟨calls, node, code⟩ := filtered
  rw [← due_skips other] at calls node code
  exact ⟨calls, node, code⟩

theorem Filtered.silent {result : Nodes P Tree × Int} {fdt : Tree} {generate : Tree → Tree × Int}
    (inside : isDue compatible (s.node ptr) = true) (equipped : (s.node ptr).generate = some generate)
    (returns : generate s.fdt = (fdt, 0))
    (filtered : Filtered compatible rest { s with fdt, calls := s.calls ++ [(ptr, 0)] } result) :
    Filtered compatible (some ptr :: rest) s result := by
  obtain ⟨calls, node, code⟩ := filtered
  have first : reached (attempts s.node (due compatible s (some ptr :: rest)) s.fdt) =
      (ptr, 0) :: reached (attempts s.node (due compatible s rest) fdt) := by
    rw [due_takes inside, attempts]
    simp only [equipped, returns, reached, if_true]
  constructor
  · rw [first, calls, List.append_assoc]
    rfl
  · rw [first, mark_silent, node]
    rfl
  · rw [first]
    refine code.trans ⟨fun ⟨call, later, failed⟩ => ⟨call, List.mem_cons_of_mem _ later, failed⟩, ?_⟩
    rintro ⟨call, later, failed⟩
    rcases List.mem_cons.mp later with rfl | later
    · exact absurd failed (Int.lt_irrefl 0)
    · exact ⟨call, later, failed⟩

theorem Filtered.answered {fdt : Tree} {generate : Tree → Tree × Int} {rc : Int}
    (inside : isDue compatible (s.node ptr) = true) (equipped : (s.node ptr).generate = some generate)
    (returns : generate s.fdt = (fdt, rc)) (answered : rc ≠ 0) {code : Int} (failed : code ≠ 0 ↔ rc < 0) :
    Filtered compatible (some ptr :: rest) s
      ({ node := mark s.node [(ptr, rc)], fdt, calls := s.calls ++ [(ptr, rc)] }, code) := by
  have first : reached (attempts s.node (due compatible s (some ptr :: rest)) s.fdt) = [(ptr, rc)] := by
    rw [due_takes inside, attempts]
    simp only [equipped, returns, reached, if_neg answered]
  refine ⟨?_, ?_, ?_⟩
  · rw [first]
  · rw [first]
  · rw [first, failed]
    simp

theorem loop_filtered (table : List (Option P)) (s : Nodes P Tree) (equipped : Equipped table s) :
    Filtered compatible table s
      (generateLoop (some (fdtNodeFilterCompatible (some compatible))) table s 0) := by
  induction table generalizing s with
  | nil => exact ⟨by simp [generateLoop, due, attempts, reached], by simp [generateLoop, due, attempts, reached, mark_nil],
      by simp [generateLoop, due, attempts, reached]⟩
  | cons entry rest ih =>
    have later : Equipped rest s := fun ptr inside => equipped ptr (List.mem_cons_of_mem _ inside)
    cases entry with
    | none =>
      rw [loop_null]
      obtain ⟨calls, node, code⟩ := ih s later
      exact ⟨calls, node, code⟩
    | some ptr =>
      rw [loop_entry]
      by_cases same : (s.node ptr).compatible = some compatible
      · obtain ⟨generate, present⟩ := Option.ne_none_iff_exists'.mp (equipped ptr List.mem_cons_self)
        rw [if_pos same]
        cases marked : (s.node ptr).generated with
        | true =>
          rw [generate_marked present marked, if_neg (Int.lt_irrefl 0)]
          exact (ih s later).skip (by simp [isDue, marked])
        | false =>
          have inside : isDue compatible (s.node ptr) = true := by simp [isDue, same, marked]
          obtain ⟨⟨fdt, rc⟩, returns⟩ : ∃ result, generate s.fdt = result := ⟨_, rfl⟩
          rw [generate_due inside present returns]
          -- what the function returns decides whether the loop looks at the rest
          rcases Int.lt_trichotomy rc 0 with failed | rfl | generated
          · rw [if_pos failed]
            exact .answered inside present returns (Int.ne_of_lt failed) (by simp [failed])
          · have kept : Equipped rest { s with fdt, calls := s.calls ++ [(ptr, 0)] } := later
            rw [if_neg (Int.lt_irrefl 0), mark_silent, mark_nil]
            exact (ih _ kept).silent inside present returns
          · rw [if_neg (Int.not_lt.mpr (Int.le_of_lt generated)), loop_over _ _ _ (Int.ne_of_gt generated)]
            exact .answered inside present returns (Int.ne_of_gt generated) (by simp [Int.le_of_lt generated])
      · rw [if_neg same]
        exact (ih s later).skip (by simp [isDue, same])

end Loop

/-! ### Completeness -/

section Complete
variable {compatible : String} {table : List (Option P)} {s : Nodes P Tree} {result : Nodes P Tree × Int}

omit [DecidableEq P] in
theorem mem_due (ptr : P) : ptr ∈ due compatible s table ↔ some ptr ∈ table ∧ isDue compatible (s.node ptr) = true := by
  simp [due]

theorem Filtered.since (filtered : Filtered compatible table s result) :
    callsSince s result.1 = reached (attempts s.node (due compatible s table) s.fdt) := by
  rw [callsSince, filtered.calls, List.drop_left]

omit [DecidableEq P] in
theorem due_of_reached {call : P × Int} (inside : call ∈ reached (attempts s.node (due compatible s table) s.fdt)) :
    call.1 ∈ due compatible s table := by
  rw [← attempts_fst s.node (due compatible s table) s.fdt]
  exact List.mem_map_of_mem ((reached_initial _).subset inside)

theorem Filtered.marked (filtered : Filtered compatible table s result) (ptr : P) :
    (s.node ptr).generated = false ∧ (result.1.node ptr).generated = true ↔
      ∃ rc > 0, (ptr, rc) ∈ callsSince s result.1 := by
  rw [filtered.since, filtered.node]
  constructor
  · rintro ⟨before, after⟩
    simp only [mark, before, Bool.false_or, List.any_eq_true, decide_eq_true_eq] at after
    obtain ⟨call, inside, rfl, generated⟩ := after
    exact ⟨call.2, generated, inside⟩
  · rintro ⟨rc, generated, inside⟩
    have isDue := ((mem_due ptr).mp (due_of_reached inside)).2
    have before : (s.node ptr).generated = false := by
      simp only [Fdt.isDue, Bool.and_eq_true, Bool.not_eq_true'] at isDue
      exact isDue.2
    refine ⟨before, ?_⟩
    simp only [mark, before, Bool.false_or, List.any_eq_true, decide_eq_true_eq]
    exact ⟨(ptr, rc), inside, rfl, generated⟩

/-- The calls that are reached are one for each node in question exactly if none comes twice
and all come. -/
theorem once_iff (ptrs : List P) (calls : List (P × Int)) (due : calls.map Prod.fst = ptrs) :
    (∀ ptr, ((reached calls).map Prod.fst).count ptr = if ptr ∈ ptrs then 1 else 0) ↔
      ((reached calls).map Prod.fst).Nodup ∧ ∀ call ∈ calls, call.1 ∈ (reached calls).map Prod.fst := by
  constructor
  · intro counts
    constructor
    · refine List.nodup_iff_count_le_one.mpr fun ptr => ?_
      rw [counts ptr]
      split <;> decide
    · -- a call that is due and not reached would be counted 0 times
      intro call inside
      have member : call.1 ∈ ptrs := due ▸ List.mem_map_of_mem inside
      have count := counts call.1
      rw [if_pos member] at count
      exact List.one_le_count_iff.mp (Nat.le_of_eq count.symm)
  · rintro ⟨distinct, all⟩ ptr
    split
    · next member =>
      rw [← due] at member
      obtain ⟨call, inside, rfl⟩ := List.mem_map.mp member
      exact List.count_eq_one_of_mem distinct (all call inside)
    · next other =>
      refine List.count_eq_zero.mpr fun inside => other ?_
      rw [← due]
      exact ((reached_initial calls).map Prod.fst).subset inside

/-- `fdt_node_generate_compatibles` does what it is for if and only if a failure comes first or
the first node that is generated is the last one in question. -/
theorem generate_compatibles_complete_iff (compatible : String) (table : List (Option P)) (s : Nodes P Tree)
    (equipped : Equipped table s) :
    Complete compatible table s (fdtNodeGenerateCompatibles (some compatible) table s) ↔
      AllReached (attempts s.node (due compatible s table) s.fdt) := by
  have filtered : Filtered compatible table s (fdtNodeGenerateCompatibles (some compatible) table s) :=
    loop_filtered table s equipped
  have once := once_iff _ _ (attempts_fst s.node (due compatible s table) s.fdt)
  simp only [mem_due] at once
  unfold AllReached
  -- the marks and a failure are right in any case: the count of the calls decides
  rw [failsFirst_iff, ← filtered.code, ← once]
  constructor
  · intro complete
    by_cases succeeds : (fdtNodeGenerateCompatibles (some compatible) table s).2 = 0
    · have counts := complete.once succeeds
      rw [filtered.since] at counts
      exact .inr counts
    · exact .inl succeeds
  · intro reaches
    refine ⟨fun succeeds => ?_, fun _ => filtered.marked, fun fails => ?_⟩
    · rw [filtered.since]
      exact reaches.resolve_left (not_not.mpr succeeds)
    · rw [filtered.since]
      exact filtered.code.mp fails

/-- Two nodes with the same compatible; a tree counts the nodes written into it. -/
def pools (first second : Int) : Nodes Bool Nat where
  node isFirst := ⟨some "restricted-dma-pool", false, some fun fdt => (fdt + 1, if isFirst then first else second)⟩
  fdt := 0
  calls := []

/-- The first has nothing to do, the second is generated. -/
theorem generate_compatibles_complete_pools :
    Complete "restricted-dma-pool" [none, some true, some false] (pools 0 1)
      (fdtNodeGenerateCompatibles (some "restricted-dma-pool") [none, some true, some false] (pools 0 1)) :=
  (generate_compatibles_complete_iff _ _ _ (by
    intro ptr _ missing
    cases missing)).mpr (.inr (by decide))

/-- Both are to be generated, and the second is not reached. -/
theorem generate_compatibles_incomplete :
    ¬Complete "restricted-dma-pool" [some true, some false] (pools 1 1)
      (fdtNodeGenerateCompatibles (some "restricted-dma-pool") [some true, some false] (pools 1 1)) := by
  intro complete
  have count := complete.once (by decide) false
  revert count
  decide

end Complete

/-! ### The loop without a filter -/

/-- The verdict stays 0, and every node is skipped. -/
theorem loop_unfiltered (table : List (Option P)) (s : Nodes P Tree) :
    generateLoop none table s 0 = (s, 0) := by
  induction table with
  | nil => rfl
  | cons entry rest ih => cases entry with
    | none => rw [loop_null, ih]
    | some ptr => simpa [generateLoop] using ih

/-- The nodes after some calls of `fdt_node_generate_compatibles`. -/
def generateEarlier (table : List (Option P)) (compatibles : List String) (s : Nodes P Tree) : Nodes P Tree :=
  compatibles.foldl (fun s compatible => (fdtNodeGenerateCompatibles (some compatible) table s).1) s

/-- After any calls of `fdt_node_generate_compatibles`, `fdt_node_generate_all` does what it is
for if and only if nothing is left to generate. -/
theorem generate_all_complete_iff (table : List (Option P)) (start : Nodes P Tree) (compatibles : List String) :
    CompleteAll table (generateEarlier table compatibles start)
        (fdtNodeGenerateAll table (generateEarlier table compatibles start)) ↔
      ∀ ptr, some ptr ∈ table → ((generateEarlier table compatibles start).node ptr).generated = true := by
  obtain ⟨s, same⟩ : ∃ s, generateEarlier table compatibles start = s := ⟨_, rfl⟩
  have nothing : fdtNodeGenerateAll table s = (s, 0) := loop_unfiltered table s
  have quiet : callsSince s s = [] := List.drop_length
  rw [same, nothing]
  constructor
  · intro complete ptr inside
    by_contra unmarked
    have count := complete.once rfl ptr inside (by simpa using unmarked)
    rw [quiet] at count
    cases count
  · intro marked
    refine ⟨fun _ ptr inside unmarked => ?_, fun ptr _ => ?_⟩
    · rw [marked ptr inside] at unmarked
      cases unmarked
    · rw [quiet]
      exact List.not_mem_nil

/-- One node that is left. -/
theorem generate_all_incomplete :
    ¬CompleteAll [some true] (pools 1 1) (fdtNodeGenerateAll [some true] (pools 1 1)) := by
  intro complete
  have count := complete.once (by decide) true (by decide) (by decide)
  revert count
  decide

end Virtioso.Fdt
