import KernelNES.Lib.Runs
import KernelNES.Emulator.TraceList

/-!
# Emulator — TraceHistory

Runs of `add_tracelog_entry` from the empty log.  Nothing is lost: the entries freed so far, in the
order they were freed, and then the entries of the list are what the calls allocated, in call order
(`Chronicle.add`).  So the list is always the last calls, and what was freed is all the others, each
once (`log_chronological`).
-/

namespace KernelNES.Emulator
open KernelNES.Lib

/-- A call of `add_tracelog_entry`: what `kzalloc` answers, and the fields of `*emu`. -/
structure AddCall where
  answer : Addr
  registers : Registers
  totalCPUCycles : Int

namespace Tracelog

/-- A call whose allocation succeeds, with a block that is not live when it is asked.  The block may
be the one the call has just freed. -/
def AddStep (s : Tracelog) (c : AddCall) (s' : Tracelog) : Prop :=
  c.answer ≠ 0 ∧ s.evict.live c.answer = false ∧
    s' = (s.addTracelogEntry c.answer c.registers c.totalCPUCycles).2

/-- What an entry says of the CPU. -/
def recorded (s : Tracelog) (a : Addr) : Registers × Int :=
  ((s.mem a).registers, (s.mem a).totalCPUCycles)

/-- The log holds the calls `recent`, and has freed the entries of the calls `removed`. -/
structure Chronicle (s : Tracelog) (removed recent : List AddCall) : Prop where
  log : LogInv s (recent.map AddCall.answer)
  recorded : ∀ c ∈ recent, s.recorded c.answer = (c.registers, c.totalCPUCycles)
  freed : s.freed.reverse = removed.map AddCall.answer
  length : recent.length = min (removed.length + recent.length) 257

theorem chronicle_empty (mem : Addr → TracelogEntry) : Chronicle (.empty mem) [] [] :=
  ⟨logInv_empty mem, by simp, rfl, rfl⟩

/-! ### What a call does to entries and to the freed blocks -/

/-- Eviction changes no record. -/
theorem evict_recorded (s : Tracelog) (a : Addr) : s.evict.recorded a = s.recorded a := by
  unfold evict removeFirstEntry
  split
  · split
    · rfl
    · dsimp only
      split
      · rfl
      · -- the new first entry loses its `prev` only
        simp only [recorded, kfree, modifyEntry_mem]
        by_cases h : a = (s.mem s.logHead).next
        · subst h
          rw [Function.update_self]
        · rw [Function.update_of_ne h]
  · rfl

/-- A call records the CPU in the new entry, and changes no other record. -/
theorem addTracelogEntry_recorded (s : Tracelog) {answer : Addr} (ha : answer ≠ 0)
    (registers : Registers) (totalCPUCycles : Int) (a : Addr) :
    (s.addTracelogEntry answer registers totalCPUCycles).2.recorded a =
      if a = answer then (registers, totalCPUCycles) else s.recorded a := by
  have hzalloc : ∀ a, a ≠ answer → (s.evict.kzalloc answer).recorded a = s.recorded a := by
    intro a hne
    rw [← evict_recorded s a, kzalloc, if_neg ha]
    simp only [recorded, Function.update_of_ne hne]
  -- linking the entry changes `next` and `prev` only
  have hlink : ∀ (s : Tracelog) (b : Addr) (f : TracelogEntry → TracelogEntry) (a : Addr),
      (∀ e, (f e).registers = e.registers ∧ (f e).totalCPUCycles = e.totalCPUCycles) →
      (s.modifyEntry b f).recorded a = s.recorded a := by
    intro s b f a hf
    by_cases h : a = b
    · subst h
      simp only [recorded, mem_modifyEntry_self, hf]
    · simp only [recorded, mem_modifyEntry_of_ne h]
  have hinit : ∀ s : Tracelog, (s.initLogEntry answer registers totalCPUCycles).recorded a =
      if a = answer then (registers, totalCPUCycles) else s.recorded a := by
    intro s
    unfold initLogEntry
    split
    · rename_i h
      subst h
      simp [recorded]
    · rename_i h
      simp only [recorded, mem_modifyEntry_of_ne h]
  unfold addTracelogEntry
  simp only [if_neg ha]
  split
  · refine (hinit _).trans ?_
    split
    · rfl
    · exact hzalloc a ‹_›
  · refine (hinit _).trans ?_
    split
    · rfl
    · rename_i hne
      let s₁ := s.evict.kzalloc answer
      let s₂ := s₁.modifyEntry s₁.logTail fun e => { e with next := answer }
      have h₁ : s₂.recorded a = s₁.recorded a :=
        hlink s₁ s₁.logTail (fun e => { e with next := answer }) a fun _ => ⟨rfl, rfl⟩
      have h₂ := hlink s₂ answer (fun e => { e with prev := s₂.logTail }) a fun _ => ⟨rfl, rfl⟩
      exact h₂.trans (h₁.trans (hzalloc a hne))

/-- A call whose allocation succeeds frees what making room frees. -/
theorem addTracelogEntry_freed (s : Tracelog) {answer : Addr} (ha : answer ≠ 0)
    (registers : Registers) (totalCPUCycles : Int) :
    (s.addTracelogEntry answer registers totalCPUCycles).2.freed = s.evict.freed := by
  unfold addTracelogEntry
  simp only [if_neg ha, kzalloc]
  split <;> rfl

/-- Making room moves the first entry to the freed ones, or nothing. -/
theorem LogInv.evict_freed {s : Tracelog} {l : List Addr} (h : LogInv s l) :
    s.evict.freed = (if 256 < l.length then l.take 1 else []) ++ s.freed := by
  rw [evict_eq h]
  by_cases hl : 256 < l.length
  · rw [if_pos hl, if_pos hl]
    match l, hl with
    | x :: y :: l, _ => exact h.removeFirst.2.1
  · rw [if_neg hl, if_neg hl]
    rfl

/-! ### The step, and the run -/

/-- **One call.**  The new entry joins the last calls; the first of them leaves when there were 257,
and its entry is freed. -/
theorem Chronicle.add {s s' : Tracelog} {removed recent : List AddCall} {c : AddCall}
    (h : Chronicle s removed recent) (hc : AddStep s c s') :
    ∃ removed' recent', removed' ++ recent' = removed ++ recent ++ [c] ∧
      Chronicle s' removed' recent' := by
  obtain ⟨ha, hfresh, rfl⟩ := hc
  obtain ⟨hlog, -, -⟩ := h.log.add ha hfresh c.registers c.totalCPUCycles
  have hevict := h.log.evict_freed
  have hlen := h.length
  have hrec := addTracelogEntry_recorded s ha c.registers c.totalCPUCycles
  have hfreed := addTracelogEntry_freed s ha c.registers c.totalCPUCycles
  -- the entries that stay are live, and so none of them is the new one
  have hstays : ∀ d : AddCall, d.answer ∈ evicted (recent.map AddCall.answer) →
      d.answer ≠ c.answer := by
    intro d hd e
    have hlive := h.log.evict.1.live _ hd
    rw [e, hfresh] at hlive
    cases hlive
  rw [evicted, List.length_map] at hlog hstays
  rw [List.length_map] at hevict
  by_cases hfull : 256 < recent.length
  · rw [if_pos hfull] at hlog hstays hevict
    obtain ⟨d, rest, rfl⟩ := List.exists_cons_of_length_pos (Nat.zero_lt_of_lt hfull)
    refine ⟨removed ++ [d], rest ++ [c], by simp, ?_, fun e he => ?_, ?_, ?_⟩
    · simpa using hlog
    · rcases List.mem_append.mp he with he | he
      · rw [hrec, if_neg (hstays e (List.mem_map_of_mem he))]
        exact h.recorded e (List.mem_cons_of_mem d he)
      · rw [List.mem_singleton.mp he, hrec, if_pos rfl]
    · rw [hfreed, hevict, List.reverse_append, h.freed]
      simp
    · simp only [List.length_append, List.length_cons, List.length_nil] at hlen hfull ⊢
      omega
  · rw [if_neg hfull] at hlog hstays hevict
    refine ⟨removed, recent ++ [c], by simp, ?_, fun e he => ?_, ?_, ?_⟩
    · simpa using hlog
    · rcases List.mem_append.mp he with he | he
      · rw [hrec, if_neg (hstays e (List.mem_map_of_mem he))]
        exact h.recorded e he
      · rw [List.mem_singleton.mp he, hrec, if_pos rfl]
    · rw [hfreed, hevict, List.nil_append, h.freed]
    · simp only [List.length_append, List.length_cons, List.length_nil] at hlen ⊢
      omega

/-- A run of calls keeps the chronicle. -/
theorem chronicle_of_run {mem : Addr → TracelogEntry} {calls : List AddCall} {s : Tracelog}
    (h : Run AddStep (.empty mem) calls s) :
    ∃ removed recent, removed ++ recent = calls ∧ Chronicle s removed recent := by
  induction h with
  | nil => exact ⟨[], [], rfl, chronicle_empty mem⟩
  | snoc _ hc ih =>
    obtain ⟨removed, recent, rfl, hchron⟩ := ih
    exact hchron.add hc

/-- **The trace log is a chronological list.**  After any calls from the empty log the entries from
`log_head` to `log_tail` are, linked both ways, distinct and live, those of the last `k` calls, 257
or all of them, each with the state of the CPU at its call; `current_length` is `k - 1`; and the
blocks freed are those of the other calls, each once. -/
theorem log_chronological {mem : Addr → TracelogEntry} {calls : List AddCall} {s : Tracelog}
    (hcalls : calls ≠ []) (h : Run AddStep (.empty mem) calls s) :
    let k := min calls.length 257
    let removed := calls.take (calls.length - k)
    let recent := calls.drop (calls.length - k)
    s.Listed (recent.map AddCall.answer) ∧ recent.length = k ∧
      (∀ c ∈ recent, s.live c.answer = true ∧ (s.mem c.answer).registers = c.registers ∧
        (s.mem c.answer).totalCPUCycles = c.totalCPUCycles) ∧
      s.currentLength = (k : Int) - 1 ∧ s.freed.reverse = removed.map AddCall.answer := by
  obtain ⟨removed, recent, rfl, hchron⟩ := chronicle_of_run h
  have hlen := hchron.length
  have hpos := List.length_pos_iff.mpr hcalls
  simp only [List.length_append] at hpos ⊢
  have hk : removed.length + recent.length - min (removed.length + recent.length) 257 =
      removed.length := by omega
  simp only [hk, List.drop_left, List.take_left]
  refine ⟨hchron.log.list, hlen, fun c hc => ?_, ?_, hchron.freed⟩
  · exact ⟨hchron.log.live _ (List.mem_map_of_mem hc),
      congrArg Prod.fst (hchron.recorded c hc), congrArg Prod.snd (hchron.recorded c hc)⟩
  · rw [hchron.log.length, List.length_map]
    omega

/-- The log after two calls. -/
def twoCalls : Tracelog :=
  (((empty fun _ => .zero).addTracelogEntry 0x1000 ⟨1, 0, 0, 0, 0xFD, 0x8000⟩ 8).2.addTracelogEntry
    0x2000 ⟨2, 0, 0, 0, 0xFD, 0x8002⟩ 10).2

theorem log_chronological_twoCalls :
    twoCalls.Listed [0x1000, 0x2000] ∧ twoCalls.currentLength = 1 ∧ twoCalls.freed = [] := by
  have hrun : Run AddStep (.empty fun _ => .zero)
      [⟨0x1000, ⟨1, 0, 0, 0, 0xFD, 0x8000⟩, 8⟩, ⟨0x2000, ⟨2, 0, 0, 0, 0xFD, 0x8002⟩, 10⟩]
      twoCalls :=
    .snoc (.one ⟨by decide, by decide, rfl⟩) ⟨by decide, by decide, rfl⟩
  obtain ⟨hlist, -, -, hlen, hfreed⟩ := log_chronological (by simp) hrun
  exact ⟨hlist, hlen, List.reverse_eq_nil_iff.mp hfreed⟩

end Tracelog

end KernelNES.Emulator
