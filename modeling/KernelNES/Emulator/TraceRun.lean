import KernelNES.Emulator.PlayRom
import KernelNES.Emulator.TraceViewer

/-!
# Emulator — TraceRun

The trace log that `emu_run` leaves on the screen.  An instruction adds its entry to the log, and
after that only fills it in (`emulateCPU_log`), so that the log of a run is the list of its
instructions, each entry as its instruction left it (`viewInv_of_after`).  When the loop stops and no
key has been pressed, the first rows of the screen are the first instructions' lines
(`emuInit_shows`).
-/

namespace KernelNES.Emulator
open KernelNES.Lib KernelNES.Kernel KernelNES.Memory

/-! ### What an instruction does to the log -/

/-- The log, with its last entry filled in. -/
def filledIn (hooks : List TailHook) (s : Tracelog) : Tracelog :=
  hooks.foldl (fun s hook => hook.run s) s

/-- To the log `x` does no more than fill in its last entry. -/
def FillsIn {α : Type} (x : CPU α) : Prop := ∀ m, ∃ hooks, (x m).2.log = filledIn hooks m.log

namespace FillsIn

/-- What leaves the log alone fills in nothing. -/
theorem of_log {α : Type} {x : CPU α} (h : ∀ m, (x m).2.log = m.log) : FillsIn x :=
  fun m => ⟨[], h m⟩

/-- Both parts fill in the last entry. -/
theorem bind {α β : Type} {x : CPU α} {y : α → CPU β} (hx : FillsIn x) (hy : ∀ a, FillsIn (y a)) :
    FillsIn (x >>= y) := by
  intro m
  obtain ⟨hooks, h⟩ := hx m
  obtain ⟨hooks', h'⟩ := hy (x m).1 (x m).2
  refine ⟨hooks ++ hooks', h'.trans ?_⟩
  rw [h, filledIn, filledIn, filledIn, List.foldl_append]

theorem emuRead (a : U16) : FillsIn (emuRead a) := by
  intro m
  by_cases h : a = m.registers.programCounter
  · exact ⟨[], if_neg (not_not.mpr h)⟩
  · exact ⟨[.readValue _], if_pos h⟩

theorem emuWrite (a : U16) (v : U8) : FillsIn (emuWrite a v) := by
  intro m
  by_cases h : a < 0x800
  · exact ⟨[.writtenValue v], if_pos h⟩
  · exact ⟨[], if_neg h⟩

theorem hook (hook : TailHook) : FillsIn (modifyLog hook.run) := fun _ => ⟨[hook], rfl⟩

theorem readPC : FillsIn readPC :=
  .bind (.of_log fun _ => rfl) fun _ => .bind (.emuRead _) fun byte =>
    .bind (.hook (.operand byte)) fun _ => .of_log fun _ => rfl

theorem readIncrementPC : FillsIn readIncrementPC :=
  .bind (.of_log fun _ => rfl) fun _ => .bind (.emuRead _) fun byte =>
    .bind (.of_log fun _ => rfl) fun _ => .bind (.hook (.operand byte)) fun _ =>
      .of_log fun _ => rfl

theorem pullStack : FillsIn pullStack :=
  .bind (.of_log fun _ => rfl) fun _ => .bind (.of_log fun _ => rfl) fun _ =>
    .bind (.of_log fun _ => rfl) fun _ => .bind (.emuRead _) fun _ => .of_log fun _ => rfl

/-- Every access fills in the last entry, and so does every case. -/
theorem rule : PrimitiveRule FillsIn where
  pure _ := .of_log fun _ => rfl
  bind hx hy := .bind hx hy
  regGet reg := .of_log fun _ => by cases reg <;> rfl
  regSet reg v := .of_log fun _ => by cases reg <;> rfl
  logicOp op v := .of_log fun _ => by cases op <;> rfl
  regStatus := .of_log fun _ => rfl
  setStatusFlag _ _ _ := .of_log fun _ => rfl
  stackPointer := .of_log fun _ => rfl
  setSP _ := .of_log fun _ => rfl
  programCounter := .of_log fun _ => rfl
  incrementPC := .of_log fun _ => rfl
  setPC a := .bind (.hook (.address a)) fun _ => .of_log fun _ => rfl
  readPC := readPC
  readIncrementPC := readIncrementPC
  emuRead := emuRead
  emuWrite := emuWrite
  pushStack v := .bind (.of_log fun _ => rfl) fun _ => .bind (.emuWrite _ v) fun _ =>
    .of_log fun _ => rfl
  pullStack := pullStack
  setAddress a := .hook (.address a)
  setIndexedAddress a := .hook (.indexedAddress a)
  halt := .of_log fun _ => rfl
  cycle := .of_log fun _ => rfl

end FillsIn

/-- The case of an opcode only fills in the last entry. -/
theorem switchOpcode_fillsIn (order : EvalOrder) (opcode : U8) :
    FillsIn (switchOpcode order opcode) := by
  cases hd : decode opcode with
  | none =>
      rw [switchOpcode_of_decode_none hd]
      exact .of_log fun _ => rfl
  | some i =>
      rw [switchOpcode_of_decode hd]
      exact FillsIn.rule.instr order i (fun _ _ e => setFlag_of_decode (e ▸ hd))
        fun _ _ => .of_log fun _ => rfl

/-- **An instruction** adds its entry to the log, and then fills it in. -/
theorem emulateCPU_log (order : EvalOrder) (answer : Addr) (m : Machine) :
    ∃ hooks, (emulateCPU order answer m).2.log =
      filledIn hooks (m.log.addTracelogEntry answer m.registers m.totalCPUCycles).2 := by
  have hrest : FillsIn (do
      let opcode ← readIncrementPC
      modify fun m => { m with curOpcode := opcode }
      switchOpcode order opcode
      modify fun m => { m with totalCPUCycles := m.totalCPUCycles + (opcodeTable opcode).cycles }) :=
    FillsIn.readIncrementPC.bind fun opcode => .bind (.of_log fun _ => rfl) fun _ =>
      .bind (switchOpcode_fillsIn order opcode) fun _ => .of_log fun _ => rfl
  exact hrest (addTracelogEntry answer (resetTracker m).2).2

/-! ### The log of a run -/

variable {s : Tracelog} {w : LogWindow}

/-- Filling in the last entry changes no other. -/
theorem ViewInv.filledIn {entries : List Logged} {c : Logged} (h : ViewInv s w)
    (hentries : w.entries = entries ++ [c]) (hooks : List TailHook) :
    ∃ (w' : LogWindow) (c' : Logged), ViewInv (filledIn hooks s) w' ∧ w'.start = w.start ∧
      w'.entries = entries ++ [c'] ∧ c'.entry.registers = c.entry.registers ∧
      c'.answer = c.answer ∧ c'.entry.totalCPUCycles = c.entry.totalCPUCycles := by
  induction hooks generalizing s w c with
  | nil => exact ⟨w, c, h, rfl, hentries, rfl, rfl, rfl⟩
  | cons hook hooks ih =>
      obtain ⟨hanswer, -, -, hregisters, hcycles⟩ := hook.fill_keeps c
      obtain ⟨w', c', hinv, hstart, hw', hr, ha, hc⟩ :=
        ih (h.hook hook) (Window.entries_mapLast hentries)
      exact ⟨w', c', hinv, hstart, hw', hr.trans hregisters, ha.trans hanswer, hc.trans hcycles⟩

/-- With no entry there is nothing to fill in. -/
theorem viewInv_filledIn_empty (hooks : List TailHook) (h : ViewInv s .empty) :
    ViewInv (Emulator.filledIn hooks s) .empty := by
  induction hooks generalizing s with
  | nil => exact h
  | cons hook hooks ih => exact ih (h.hook hook)

/-- **One instruction** appends one entry, with the state of the CPU before it. -/
theorem ViewInv.emulateCPU {m : Machine} (h : ViewInv m.log w) (hrun : m.running = true)
    (h0 : 0 ≤ m.totalCPUCycles) (hroom : w.entries.length ≤ 256) (order : EvalOrder) {answer : Addr}
    (ha : answer ≠ 0) (hfresh : m.log.live answer = false) :
    let m' := (emulateCPU order answer m).2
    ∃ (w' : LogWindow) (c : Logged), ViewInv m'.log w' ∧ w'.start = w.start ∧
      w'.entries = w.entries ++ [c] ∧ c.entry = (m'.log.mem answer).unlinked ∧
      c.entry.registers = m.registers ∧ c.entry.totalCPUCycles = m.totalCPUCycles := by
  have hcycles := (m.running_iff.mp hrun).2
  have hlength : m.log.currentLength + 1 ≤ tracelogMaxLength := by
    rw [h.length, tracelogMaxLength]
    omega
  have hevict : m.log.evict = m.log := if_neg (by omega)
  let call : AddCall := ⟨answer, m.registers, m.totalCPUCycles⟩
  have hcall : 0 ≤ call.totalCPUCycles ∧ call.totalCPUCycles < 10000 :=
    ⟨h0, hcycles.trans (by decide)⟩
  have hlive : m.log.evict.live call.answer = false := by rwa [hevict]
  have hadd := h.add ha hlive hlength hcall
  obtain ⟨hooks, hlog⟩ := emulateCPU_log order answer m
  obtain ⟨w', c, hinv, hstart, hw', hregisters, hanswer, hc⟩ := hadd.filledIn rfl hooks
  have hmem := hinv.entry c (hw' ▸ List.mem_append_right _ (List.mem_singleton_self c))
  rw [hanswer] at hmem
  rw [← hlog] at hinv hmem
  exact ⟨w', c, hinv, hstart, hw', hmem.symm, hregisters, hc⟩

/-- The first `n` instructions run, and the allocations of their entries succeed. -/
structure RunsFor (order : EvalOrder) (answers : Nat → Addr) (m : Machine) (n : Nat) : Prop where
  running : ∀ k < n, (m.after order answers k).running = true
  not_null : ∀ k < n, answers k ≠ 0
  fresh : ∀ k < n, (m.after order answers k).log.live (answers k) = false

variable {order : EvalOrder} {answers : Nat → Addr} {m : Machine} {mem : Addr → TracelogEntry}

/-- Cycles are never negative. -/
theorem after_cycles_nonneg (h0 : 0 ≤ m.totalCPUCycles) (n : Nat) :
    0 ≤ (m.after order answers n).totalCPUCycles := by
  induction n with
  | zero => exact h0
  | succ n ih =>
      obtain ⟨hlo, -⟩ := emulateCPU_cycles order (answers n) (m.after order answers n)
      have hsucc : m.after order answers (n + 1) =
          (emulateCPU order (answers n) (m.after order answers n)).2 := rfl
      rw [hsucc]
      omega

/-- **The log of a run** is the list of its instructions, each entry as its instruction left it, with
the state of the CPU before the instruction. -/
theorem viewInv_of_after (hempty : ViewInv m.log .empty) (h0 : 0 ≤ m.totalCPUCycles) {n : Nat}
    (hmax : n ≤ 257) (hrun : RunsFor order answers m n) :
    ∃ w : LogWindow, ViewInv (m.after order answers n).log w ∧ w.start = 0 ∧
      w.entries.length = n ∧ ∀ k (hk : k < w.entries.length),
        w.entries[k].entry = ((m.after order answers (k + 1)).log.mem (answers k)).unlinked ∧
        w.entries[k].entry.registers = (m.after order answers k).registers ∧
        w.entries[k].entry.totalCPUCycles = (m.after order answers k).totalCPUCycles := by
  induction n with
  | zero => exact ⟨.empty, hempty, rfl, rfl, fun k hk => absurd hk (Nat.not_lt_zero k)⟩
  | succ n ih =>
      obtain ⟨w, hinv, hstart, hlen, hentries⟩ := ih (by omega)
        ⟨fun k hk => hrun.running k (by omega), fun k hk => hrun.not_null k (by omega),
          fun k hk => hrun.fresh k (by omega)⟩
      have hlast := Nat.lt_succ_self n
      obtain ⟨w', c, hinv', hstart', hw', hc⟩ := hinv.emulateCPU (hrun.running n hlast)
        (after_cycles_nonneg h0 n) (by omega) order (hrun.not_null n hlast) (hrun.fresh n hlast)
      have hlen' : w'.entries.length = n + 1 := by rw [hw', List.length_append, hlen]; rfl
      refine ⟨w', hinv', hstart'.trans hstart, hlen', fun k hk => ?_⟩
      -- the entry is an old one, or the new one
      rcases Nat.lt_or_ge k n with hkn | hkn
      · have hget : w'.entries[k] = w.entries[k] := by
          simp only [hw', List.getElem_append_left (hlen ▸ hkn)]
        rw [hget]
        exact hentries k (hlen ▸ hkn)
      · obtain rfl : k = n := by omega
        have hget : w'.entries[k] = c := by
          simp only [hw', List.getElem_append_right hlen.le, hlen, Nat.sub_self,
            List.getElem_cons_zero]
        rw [hget]
        exact hc

/-- What `emu_run` prints when its loop has stopped. -/
theorem ViewInv.shows_run (hempty : ViewInv m.log .empty) (h0 : 0 ≤ m.totalCPUCycles) {n : Nat}
    (hpos : 0 < n) (hmax : n ≤ 257) (hrun : RunsFor order answers m n) (digits : Nat → Nat → U8)
    (t : Terminal) :
    ∃ t', printTracelogEntries digits (m.after order answers n).log t = .ok ((), t') ∧
      ∀ r < min 25 n,
        let e := (m.after order answers (r + 1)).log.mem (answers r)
        t'.row r = rowOf (line e) ∧ e.registers = (m.after order answers r).registers ∧
          e.totalCPUCycles = (m.after order answers r).totalCPUCycles := by
  obtain ⟨w, hinv, hstart, hlen, hentries⟩ := viewInv_of_after hempty h0 hmax hrun
  have hne : w.entries ≠ [] := List.length_pos_iff.mp (by omega)
  have hhead : (m.after order answers n).log.logHead ≠ 0 :=
    hinv.cursor.log.head_ne_iff.mpr (mt List.map_eq_nil_iff.mp hne)
  have hshows := hinv.shows hhead t
  refine ⟨_, hinv.prints hhead digits t, fun r hr => ?_⟩
  have hr' : r < w.lines.length := by
    rw [LogWindow.lines, List.length_map, Window.length_shown, hlen]
    exact hr
  have hin : r < w.entries.length := by omega
  have hshown : w.lines[r] = line w.entries[r].entry := by
    simp only [LogWindow.lines, Window.shown, hstart, List.drop_zero, List.getElem_map,
      List.getElem_take]
  obtain ⟨hentry, hregisters, hcycles⟩ := hentries r hin
  rw [hentry] at hregisters hcycles hshown
  exact ⟨(hshows.row r hr').trans (congrArg rowOf hshown), hregisters, hcycles⟩

/-! ### From `emu_init` on -/

/-- The reset fills in the last entry of the log, of which there is none yet, and leaves the number
of cycles alone. -/
theorem resetState_log {V : Type} (files : FileOps V) (v : V) (m : Machine) :
    (∃ hooks, (resetState files v m).log = Emulator.filledIn hooks m.log) ∧
      (resetState files v m).totalCPUCycles = m.totalCPUCycles := by
  have hvector : FillsIn resetVector :=
    .bind (.emuRead _) fun _ => .bind (.emuRead _) fun _ => .bind (.of_log fun _ => rfl) fun _ =>
      .of_log fun _ => rfl
  set r := files.fopen m.filepath "r" v with hr
  have hreset : resetState files v m =
      (((if r.1 ≠ 0 then loadFile files r.1 r.2 else pure r.2) >>= fun v => do
        resetVector
        emuRun .leftFirst 0 fun _ => 0
        pure v : CPU V) m).2 := rfl
  rw [hreset]
  by_cases hfd : r.1 ≠ 0
  · rw [if_pos hfd]
    exact ⟨hvector (loadFile files r.1 r.2 m).2, rfl⟩
  · rw [if_neg hfd]
    exact ⟨hvector m, rfl⟩

/-- **`emu_init` shows the trace of its run.**  From an empty log, whatever the files are, when
`emu_run` stops after `n` instructions, at most 257, and their entries were allocated, the log is
printed, and row `r` of the screen, for each of the first 25 instructions, is the line of its entry
as the instruction left it, with the state of the CPU before it. -/
theorem emuInit_shows {V : Type} (files : FileOps V) (filepath : String) (v : V) {m start : Machine}
    (hlog : m.log = .empty mem) (hstart : start = resetState files v (m.initialized filepath))
    {n fuel : Nat} (hpos : 0 < n) (hmax : n ≤ 257) (hrun : RunsFor order answers start n)
    (hstop : (start.after order answers n).running = false) (hfuel : n ≤ fuel)
    (digits : Nat → Nat → U8) (t : Terminal) :
    ∃ t', printTracelogEntries digits (emuInit files filepath order fuel answers v m).2.log t =
        .ok ((), t') ∧
      ∀ r < min 25 n,
        let e := (start.after order answers (r + 1)).log.mem (answers r)
        t'.row r = rowOf (line e) ∧ e.registers = (start.after order answers r).registers ∧
          e.totalCPUCycles = (start.after order answers r).totalCPUCycles := by
  obtain ⟨⟨hooks, hhooks⟩, hcycles⟩ := resetState_log files v (m.initialized filepath)
  rw [← hstart] at hhooks hcycles
  have hempty : ViewInv start.log .empty := by
    rw [hhooks]
    refine viewInv_filledIn_empty hooks ?_
    show ViewInv m.log .empty
    rw [hlog]
    exact viewInv_empty mem
  have h0 : 0 ≤ start.totalCPUCycles := by
    rw [hcycles]
    exact Int.le.intro 8 rfl
  have hafter : (emuInit files filepath order fuel answers v m).2 = start.after order answers n := by
    rw [emuInit_eq, ← hstart]
    exact emuRun_eq_after order answers start hrun.running hstop fuel hfuel
  rw [hafter]
  exact hempty.shows_run h0 hpos hmax hrun digits t

/-- A file layer with one file, whose ROM is `NOP`, then `STP`. -/
def stopFile : FileOps Unit where
  fopen _ _ v := (1, v)
  fread _ size _ _ v := (fun i =>
    if size = 0x10 then 0 else if i = 0 then 0xEA else if i = 1 then 0x02
    else if i = 0x7FFD then 0x80 else 0, 1, v)
  fseek _ _ _ v := (0, v)

theorem emuInit_shows_stop : ∃ t',
    printTracelogEntries (fun _ _ => 0)
      (emuInit stopFile "0:/stop.nes" .leftFirst 1000 (fun k => BitVec.ofNat 32 (k + 1)) ()
        (.ofProgram [] ⟨1, 2, 3, 0, 0, 0⟩)).2.log (.atBoot fun _ => 0) = .ok ((), t') ∧
    t'.row 1 = rowOf
      (cstr "8001 02  STP                        A:01 X:02 Y:03 S:FD P:nv--dIzc Cycle:10") := by
  have hlog : (Machine.ofProgram [] ⟨1, 2, 3, 0, 0, 0⟩).log = .empty fun _ => .zero := rfl
  have hrun : RunsFor .leftFirst (fun k => BitVec.ofNat 32 (k + 1)) (resetState stopFile ()
      ((Machine.ofProgram [] ⟨1, 2, 3, 0, 0, 0⟩).initialized "0:/stop.nes")) 2 :=
    ⟨by decide, by decide, by decide⟩
  obtain ⟨t', hprint, hrows⟩ := emuInit_shows stopFile "0:/stop.nes" () hlog rfl (by decide)
    (by decide) hrun (by decide) (show 2 ≤ 1000 by decide) (fun _ _ => 0) (.atBoot fun _ => 0)
  obtain ⟨hrow, -⟩ := hrows 1 (by decide)
  refine ⟨t', hprint, hrow.trans (congrArg rowOf ?_)⟩
  have hdecimal : decimal 10 = cstr "10" := by simp [decimal, digit, cstr, char]
  exact (congrArg (stateText _ ++ ·) hdecimal).trans (by decide)

end KernelNES.Emulator
