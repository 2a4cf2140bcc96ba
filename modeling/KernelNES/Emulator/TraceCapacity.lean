import KernelNES.Emulator.TraceCursor
import KernelNES.Emulator.TraceHistory

/-!
# Emulator — TraceCapacity

`add_tracelog_entry` makes room when `current_length + 1 > TRACELOG_MAX_LENGTH`.  The first
insertion into an empty log leaves `current_length` at 0, so that the list grows to 257 entries
before one is evicted (`Chronicle.length`).  The runs that keep the bound are those that never come
near it (`withinCapacity_iff`).
-/

namespace KernelNES.Emulator
open KernelNES.Lib

namespace Tracelog

/-- The calls whose entries a log of `TRACELOG_MAX_LENGTH` entries holds. -/
def lastCalls (calls : List AddCall) : List AddCall :=
  calls.drop (calls.length - min calls.length tracelogMaxLength.toNat)

/-- After these calls, the log holds no more than `TRACELOG_MAX_LENGTH` entries, and they are those
of the last calls. -/
structure WithinCapacity (calls : List AddCall) (s : Tracelog) : Prop where
  bound : ∀ l, s.Listed l → l.length ≤ tracelogMaxLength.toNat
  list : s.Listed ((lastCalls calls).map AddCall.answer)
  recorded : ∀ c ∈ lastCalls calls, s.recorded c.answer = (c.registers, c.totalCPUCycles)

/-- A log of all the calls. -/
theorem Chronicle.withinCapacity {s : Tracelog} {calls : List AddCall} (h : Chronicle s [] calls)
    (hcalls : calls.length ≤ tracelogMaxLength.toNat) : WithinCapacity calls s := by
  have hlast : lastCalls calls = calls := by
    rw [lastCalls, min_eq_left hcalls, Nat.sub_self, List.drop_zero]
  refine ⟨fun l hl => ?_, hlast.symm ▸ h.log.list, hlast.symm ▸ h.recorded⟩
  rwa [hl.unique h.log.list, List.length_map]

/-- **The log respects its capacity** exactly in the runs of at most `TRACELOG_MAX_LENGTH` calls. -/
theorem withinCapacity_iff {mem : Addr → TracelogEntry} {calls : List AddCall} {s : Tracelog}
    (h : Run AddStep (.empty mem) calls s) : WithinCapacity calls s ↔ calls.length ≤ 256 := by
  obtain ⟨removed, recent, rfl, hchron⟩ := chronicle_of_run h
  have hlen := hchron.length
  rw [List.length_append]
  constructor
  · intro hw
    have hbound := hw.bound _ hchron.log.list
    rw [List.length_map] at hbound
    have : recent.length ≤ 256 := hbound
    omega
  · intro hle
    have hremoved : removed.length = 0 := by omega
    obtain rfl := List.eq_nil_of_length_eq_zero hremoved
    rw [List.length_nil, Nat.zero_add] at hle
    exact hchron.withinCapacity hle

/-- The calls of `addCalls`. -/
def firstCalls : Nat → List AddCall
  | 0 => []
  | n + 1 => firstCalls n ++ [⟨BitVec.ofNat 32 (n + 1), ⟨0, 0, 0, 0, 0, 0⟩, 0⟩]

/-- The calls of a fresh log, up to the 258th. -/
theorem run_firstCalls {n : Nat} (hn : n ≤ 258) :
    Run AddStep (.empty fun _ => .zero) (firstCalls n) (afterAdds n) := by
  induction n with
  | zero => exact .nil _
  | succ n ih =>
      obtain ⟨hnull, hfresh⟩ := afterAdds_fresh (show n < 258 by omega)
      exact (ih (by omega)).snoc ⟨hnull, hfresh, rfl⟩

theorem length_firstCalls (n : Nat) : (firstCalls n).length = n := by
  induction n with
  | zero => rfl
  | succ n ih => rw [firstCalls, List.length_append, ih]; rfl

/-- After 256 calls the log is full. -/
theorem withinCapacity_full : WithinCapacity (firstCalls 256) (afterAdds 256) :=
  (withinCapacity_iff (run_firstCalls (by decide))).mpr (length_firstCalls 256).le

/-- After 257 calls the log holds 257 entries. -/
theorem log_exceeds_capacity :
    ∃ s l, Run AddStep (.empty fun _ => .zero) (firstCalls 257) s ∧ s.Listed l ∧ l.length = 257 ∧
      ¬ WithinCapacity (firstCalls 257) s := by
  have hrun := run_firstCalls (n := 257) (by omega)
  obtain ⟨removed, recent, hcalls, hchron⟩ := chronicle_of_run hrun
  have htotal := congrArg List.length hcalls
  rw [List.length_append, length_firstCalls] at htotal
  have hlen : (recent.map AddCall.answer).length = 257 := by
    rw [List.length_map, hchron.length, htotal]
    rfl
  refine ⟨_, _, hrun, hchron.log.list, hlen, fun hw => ?_⟩
  have hbound : (recent.map AddCall.answer).length ≤ 256 := hw.bound _ hchron.log.list
  omega

end Tracelog

end KernelNES.Emulator
