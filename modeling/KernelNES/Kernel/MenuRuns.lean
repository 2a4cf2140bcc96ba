import KernelNES.Kernel.Menu
import KernelNES.Lib.Runs
import Mathlib.Tactic.IntervalCases

/-!
# Kernel — MenuRuns

What the menu does under any key timing.  While every key is timely the cursor is at an entry, each
entry is there once its assignment has been executed, and the screen shows the menu as it is
(`MenuInv`); so nothing goes wrong (`MenuInv.safe`).  The first key that is not leaves a record
behind that no later step removes (`Spoilt`).
-/

namespace KernelNES.Kernel
open KernelNES.Lib

/-! ### The statements in order -/

/-- Where each statement of `kernel_main` stands. -/
theorem kernelMain_cases {pc : Nat} {st : Statement} (h : kernelMain[pc]? = some st) :
    (pc = 0 ∧ st = .kernelInitialized) ∨ (∃ i < 6, pc = i + 1 ∧ st = .testRom i) ∨
      (pc = 7 ∧ st = .drawMenu) ∨ (pc = 8 ∧ st = .waitForRom) ∨
      (pc = 9 ∧ st = .terminalInitialize) ∨ (pc = 10 ∧ st = .emuEnableLogger) ∨
      (pc = 11 ∧ st = .emuInit) := by
  have hpc : pc < 12 := (List.getElem?_eq_some_iff.mp h).1
  interval_cases pc <;> simp_all [kernelMain]

theorem romPath_ne_arrow (i : Nat) : some (romPath i) ≠ some arrow := by
  unfold romPath
  split <;> decide

/-- What a scancode can do. -/
theorem handleScancode_cases (byte : U8) (m : Menu) : handleScancode byte m = m ∨
    (byte = 0x11 ∧ m.romSelected = false ∧ handleScancode byte m = decrementCursor m) ∨
    (byte = 0x1F ∧ m.romSelected = false ∧ handleScancode byte m = incrementCursor m) ∨
    (byte = 0x1C ∧ m.kernelInitialized = true ∧ handleScancode byte m = m.selectRom) := by
  unfold handleScancode
  by_cases hw : byte = 0x11
  · rw [if_pos hw]
    cases m.romSelected with
    | true => exact .inl rfl
    | false => exact .inr (.inl ⟨hw, rfl, rfl⟩)
  rw [if_neg hw]
  by_cases hs : byte = 0x1F
  · rw [if_pos hs]
    cases m.romSelected with
    | true => exact .inl rfl
    | false => exact .inr (.inr (.inl ⟨hs, rfl, rfl⟩))
  rw [if_neg hs]
  by_cases he : byte = 0x1C
  · rw [if_pos he]
    cases m.kernelInitialized with
    | true => exact .inr (.inr (.inr ⟨he, rfl, rfl⟩))
    | false => exact .inl rfl
  exact .inl (if_neg he)

/-! ### The invariant -/

/-- What holds of the menu while all keys are timely, whatever is on the screen. -/
structure MenuCore (m : Menu) : Prop where
  cursor_nonneg : 0 ≤ m.cursorIndex
  cursor_lt : m.cursorIndex < 6
  roms : ∀ i < 6, m.testRoms i = if i + 2 ≤ m.pc then some (romPath i) else none
  drawn : 0 < m.draws → 7 ≤ m.pc
  unselected : m.romSelected = false → m.pc ≤ 8 ∧ m.accepted = [] ∧ m.started = []
  selected : m.romSelected = true → 7 ≤ m.pc ∧ m.accepted = [some m.entry]
  started : ∀ path ∈ m.started, m.romSelected = true ∧ path = m.entry
  printed : none ∉ m.printed
  read : none ∉ m.read

/-- Until a ROM is selected the screen shows the menu, once it has been drawn. -/
structure MenuInv (m : Menu) : Prop extends MenuCore m where
  undrawn : m.draws = 0 → m.shown = []
  shown : m.romSelected = false → 0 < m.draws → m.shown = menuText m.cursorIndex m.testRoms

namespace MenuCore
variable {m : Menu}

/-- Once set, a ROM is where `kernel_main` put it. -/
theorem rom (h : MenuCore m) (hpc : 7 ≤ m.pc) {i : Nat} (hi : i < 6) :
    m.testRoms i = some (romPath i) := by
  rw [h.roms i hi, if_pos (by omega)]

theorem entry_eq (h : MenuCore m) : m.entry = m.testRoms m.cursorIndex.toNat := by
  have hlt := h.cursor_lt
  rw [Menu.entry, if_pos ⟨h.cursor_nonneg, by simp only [numRoms]; omega⟩]

/-- No entry of the menu is missing. -/
theorem entry_ne_none (h : MenuCore m) (hpc : 7 ≤ m.pc) : m.entry ≠ none := by
  have hlt := h.cursor_lt
  rw [h.entry_eq, h.rom hpc (by omega)]
  exact Option.some_ne_none _

theorem readCursor (h : MenuCore m) (hpc : 7 ≤ m.pc) : MenuCore m.readCursor := by
  refine { h with read := fun hm => ?_ }
  rcases List.mem_append.mp hm with hm | hm
  · exact h.read hm
  · exact h.entry_ne_none hpc (List.mem_singleton.mp hm).symm

/-- The cursor may be moved until a ROM is selected. -/
theorem move (h : MenuCore m) (hsel : m.romSelected = false) {c : Int} (hc₀ : 0 ≤ c)
    (hc : c < 6) : MenuCore { m with cursorIndex := c } where
  cursor_nonneg := hc₀
  cursor_lt := hc
  roms := h.roms
  drawn := h.drawn
  unselected := h.unselected
  selected := fun hs => absurd (hsel.symm.trans hs) Bool.false_ne_true
  started := fun path hp => absurd (hsel.symm.trans (h.started path hp).1) Bool.false_ne_true
  printed := h.printed
  read := h.read

/-- Drawing the menu, when all entries are there. -/
theorem drawMenu (h : MenuCore m) (hpc : 7 ≤ m.pc) : MenuInv (drawMenu m) := by
  have hroms : ∀ i < numRoms - 1, m.testRoms i ≠ none := fun i hi => by
    rw [h.rom hpc hi]
    exact Option.some_ne_none _
  rw [drawMenu_eq]
  refine { h with
    drawn := fun _ => hpc
    undrawn := fun h0 => absurd h0 (Nat.succ_ne_zero _)
    shown := fun _ _ => rfl
    printed := fun hm => ?_
    read := fun hm => ?_ }
  · exact (List.mem_append.mp hm).elim h.printed (none_notMem_menuText hroms)
  · rcases List.mem_append.mp hm with hm | hm
    · exact h.read hm
    · obtain ⟨_, -, e⟩ := List.mem_map.mp hm
      exact h.entry_ne_none hpc e

end MenuCore

namespace MenuInv
variable {m : Menu}

/-- The invariant holds before the first statement. -/
theorem start : MenuInv .start where
  cursor_nonneg := le_rfl
  cursor_lt := by decide
  roms := fun _ _ => rfl
  drawn := fun h => absurd h (lt_irrefl 0)
  unselected := fun _ => ⟨Nat.zero_le _, rfl, rfl⟩
  selected := nofun
  started := nofun
  printed := List.not_mem_nil
  read := List.not_mem_nil
  undrawn := fun _ => rfl
  shown := fun _ h => absurd h (lt_irrefl 0)

/-- W moves the cursor to another ROM. -/
theorem decrementCursor (h : MenuInv m) (hsel : m.romSelected = false) (hpc : 7 ≤ m.pc) :
    MenuInv (decrementCursor m) := by
  have hcore := h.toMenuCore.readCursor hpc
  unfold Kernel.decrementCursor
  refine MenuCore.drawMenu ?_ (by split <;> exact hpc)
  split
  next hpos => exact hcore.move hsel (by omega) (by have := hcore.cursor_lt; omega)
  next => exact hcore

/-- S does, too. -/
theorem incrementCursor (h : MenuInv m) (hsel : m.romSelected = false) (hpc : 7 ≤ m.pc) :
    MenuInv (incrementCursor m) := by
  have hcore := h.toMenuCore.readCursor hpc
  unfold Kernel.incrementCursor
  refine MenuCore.drawMenu ?_ (by split <;> exact hpc)
  split
  next hlt =>
    simp only [numRoms] at hlt
    exact hcore.move hsel (by have := hcore.cursor_nonneg; omega) (by omega)
  next => exact hcore

/-- What is highlighted when `Enter` selects a ROM. -/
theorem highlighted_shown (h : MenuInv m) (hsel : m.romSelected = false) (hdrawn : 0 < m.draws) :
    highlighted m.shown = some m.entry := by
  have hpc := h.drawn hdrawn
  have hlt := h.cursor_lt
  obtain ⟨c, hc⟩ := Int.eq_ofNat_of_zero_le h.cursor_nonneg
  rw [h.shown hsel hdrawn, h.entry_eq, hc]
  refine highlighted_menuText (by simp only [numRoms]; omega) fun i hi => ?_
  rw [h.rom hpc hi]
  exact romPath_ne_arrow i

/-- Enter accepts what is highlighted. -/
theorem selectRom (h : MenuInv m) (hdrawn : m.romSelected = false → 0 < m.draws) :
    MenuInv m.selectRom := by
  refine { h with
    unselected := nofun
    selected := fun _ => ?_
    started := fun path hp => ⟨rfl, (h.started path hp).2⟩
    shown := nofun }
  show 7 ≤ m.pc ∧ (if m.romSelected then m.accepted else m.accepted ++ [highlighted m.shown]) =
    [some m.entry]
  cases hsel : m.romSelected with
  | true => exact h.selected hsel
  | false =>
      rw [h.highlighted_shown hsel (hdrawn hsel), (h.unselected hsel).2.1]
      exact ⟨h.drawn (hdrawn hsel), rfl⟩

/-- A timely scancode keeps the invariant. -/
theorem handleScancode (h : MenuInv m) {byte : U8} (ht : Timely m (.scancode byte)) :
    MenuInv (handleScancode byte m) := by
  have hkey : m.romSelected = false → (byte = 0x11 ∨ byte = 0x1F → 7 ≤ m.pc) ∧
      (byte = 0x1C → m.kernelInitialized = true → 0 < m.draws) := fun hsel =>
    ht.resolve_left fun hs => absurd (hsel.symm.trans hs) Bool.false_ne_true
  rcases handleScancode_cases byte m with e | ⟨hw, hsel, e⟩ | ⟨hs, hsel, e⟩ | ⟨he, hinit, e⟩
  · rw [e]; exact h
  · rw [e]; exact h.decrementCursor hsel ((hkey hsel).1 (.inl hw))
  · rw [e]; exact h.incrementCursor hsel ((hkey hsel).1 (.inr hs))
  · rw [e]; exact h.selectRom fun hsel => (hkey hsel).2 he hinit

/-- Until all entries are there, no ROM is selected, and nothing is on the screen. -/
theorem early (h : MenuInv m) (hpc : m.pc < 7) : m.romSelected = false ∧ m.draws = 0 := by
  constructor
  · by_contra hsel
    have hge := (h.selected (Bool.eq_true_of_not_eq_false hsel)).1
    omega
  · by_contra hd
    have hge := h.drawn (Nat.pos_of_ne_zero hd)
    omega

/-- The statements in front of `draw_menu`. -/
theorem early_next (h : MenuInv m) (hpc : m.pc < 7) (initialized : Bool)
    {testRoms : Nat → Option (List U8)}
    (hroms : ∀ i < 6, testRoms i = if i + 2 ≤ m.pc + 1 then some (romPath i) else none) :
    MenuInv { m with
      kernelInitialized := initialized
      testRoms := testRoms
      pc := m.pc + 1 } := by
  obtain ⟨hsel, hd⟩ := h.early hpc
  have hnot : ¬ m.romSelected = true := fun hs => absurd (hsel.symm.trans hs) Bool.false_ne_true
  exact
    { h with
      roms := hroms
      drawn := fun hpos => absurd hd (Nat.ne_of_gt hpos)
      unselected := fun _ => ⟨by show m.pc + 1 ≤ 8; omega, (h.unselected hsel).2⟩
      selected := fun hs => absurd hs hnot
      started := fun path hp => absurd (h.started path hp).1 hnot
      shown := fun _ hpos => absurd hd (Nat.ne_of_gt hpos) }

/-- A statement that changes neither the entries nor what is on the screen. -/
theorem next (h : MenuInv m) (hpc : 7 ≤ m.pc) (hwait : m.romSelected = false → m.pc < 8) :
    MenuInv { m with pc := m.pc + 1 } :=
  { h with
    roms := fun i hi => by
      rw [h.rom hpc hi, if_pos (by show i + 2 ≤ m.pc + 1; omega)]
    drawn := fun _ => Nat.le_succ_of_le hpc
    unselected := fun hsel => ⟨hwait hsel, (h.unselected hsel).2⟩
    selected := fun hsel => ⟨Nat.le_succ_of_le hpc, (h.selected hsel).2⟩ }

/-- A statement keeps the invariant. -/
theorem statement (h : MenuInv m) {st : Statement} (hst : kernelMain[m.pc]? = some st)
    (hwait : st = .waitForRom → m.romSelected = true) :
    MenuInv { st.execute m with pc := m.pc + 1 } := by
  -- behind the waiting loop a ROM is selected
  have hsel (hpc : 8 < m.pc) : m.romSelected = true := by
    by_contra hsel
    have hle := (h.unselected (Bool.eq_false_of_not_eq_true hsel)).1
    omega
  have hnot (hs : m.romSelected = true) : m.romSelected = false → m.pc < 8 := fun hf =>
    absurd (hf.symm.trans hs) Bool.false_ne_true
  rcases kernelMain_cases hst with ⟨hpc, rfl⟩ | ⟨i, hi, hpc, rfl⟩ | ⟨hpc, rfl⟩ | ⟨hpc, rfl⟩ |
    ⟨hpc, rfl⟩ | ⟨hpc, rfl⟩ | ⟨hpc, rfl⟩
  · refine h.early_next (by omega) true fun i hi => ?_
    show m.testRoms i = _
    rw [h.roms i hi, if_neg (by omega), if_neg (by omega)]
  · refine h.early_next (by omega) m.kernelInitialized fun j hj => ?_
    show Function.update m.testRoms i (some (romPath i)) j = _
    by_cases hji : j = i
    · rw [hji, Function.update_self, if_pos (by omega)]
    · rw [Function.update_of_ne hji, h.roms j hj]
      exact ite_congr (propext (by omega)) (fun _ => rfl) fun _ => rfl
  · have hdraw := h.toMenuCore.drawMenu (by omega)
    have hpc' : (Kernel.drawMenu m).pc = m.pc := by rw [drawMenu_eq]
    have hnext := hdraw.next (by omega) fun _ => by omega
    rwa [hpc'] at hnext
  · exact h.next (by omega) (hnot (hwait rfl))
  · have hs := hsel (by omega)
    refine { h.next (by omega) (hnot hs) with
      undrawn := fun _ => rfl
      shown := fun hf => absurd (hf.symm.trans hs) Bool.false_ne_true }
  · exact h.next (by omega) (hnot (hsel (by omega)))
  · have hs := hsel (by omega)
    have hnext := h.next (by omega) (hnot hs)
    refine { hnext with
      unselected := fun hf => absurd (hf.symm.trans hs) Bool.false_ne_true
      started := fun path hp => ⟨hs, ?_⟩
      read := (h.toMenuCore.readCursor (by omega)).read }
    rcases List.mem_append.mp hp with hp | hp
    · exact (h.started path hp).2
    · exact List.mem_singleton.mp hp

end MenuInv

/-- **The step lemma.** -/
theorem MenuStep.inv {m m' : Menu} {e : MenuEvent} (h : MenuInv m)
    (hstep : Meeting Timely MenuStep m e m') : MenuInv m' := by
  obtain ⟨ht, hstep⟩ := hstep
  cases hstep with
  | statement hst hwait => exact h.statement hst hwait
  | wait => exact h
  | scancode byte => exact h.handleScancode ht

/-- The invariant makes the menu safe. -/
theorem MenuInv.safe {m : Menu} (h : MenuInv m) : MenuSafe m where
  printed := h.printed
  read := h.read
  accepted := by
    cases hsel : m.romSelected with
    | false => rw [(h.unselected hsel).2.1]; exact List.not_mem_nil
    | true => rw [(h.selected hsel).2]; simp
  started := fun path hp => by
    obtain ⟨hsel, rfl⟩ := h.started path hp
    exact (h.selected hsel).2

/-! ### Keys that come too early -/

/-- `m'` keeps the record of what happened before `m`. -/
def Extends (m m' : Menu) : Prop := m.printed ⊆ m'.printed ∧ m.accepted ⊆ m'.accepted

theorem Extends.refl (m : Menu) : Extends m m := ⟨List.Subset.refl _, List.Subset.refl _⟩

/-- Drawing adds to the record, whatever else has changed. -/
theorem Extends.drawMenu {m m' : Menu} (h : Extends m m') : Extends m (drawMenu m') := by
  rw [drawMenu_eq]
  exact ⟨fun _ hs => List.mem_append_left _ (h.1 hs), h.2⟩

/-- Nothing accepted or started is taken back. -/
theorem MenuStep.extends {m m' : Menu} {e : MenuEvent} (h : MenuStep m e m') : Extends m m' := by
  cases h with
  | wait => exact .refl m
  | @statement st =>
      cases st with
      | drawMenu => exact (Extends.refl m).drawMenu
      | _ => exact .refl m
  | scancode byte =>
      rcases handleScancode_cases byte m with e | ⟨-, -, e⟩ | ⟨-, -, e⟩ | ⟨-, -, e⟩
      · rw [e]; exact .refl m
      · rw [e, decrementCursor]
        refine Extends.drawMenu ?_
        split <;> exact .refl m
      · rw [e, incrementCursor]
        refine Extends.drawMenu ?_
        split <;> exact .refl m
      · rw [e]
        refine ⟨List.Subset.refl _, ?_⟩
        show m.accepted ⊆ if m.romSelected then m.accepted else m.accepted ++ [_]
        split
        · exact List.Subset.refl _
        · exact List.subset_append_left _ _

/-- A `NULL` string has been printed, or `Enter` has been accepted with nothing highlighted. -/
def Spoilt (m : Menu) : Prop := none ∈ m.printed ∨ none ∈ m.accepted

/-- What is spoilt stays so. -/
theorem Spoilt.step {m m' : Menu} {e : MenuEvent} (h : Spoilt m) (hstep : MenuStep m e m') :
    Spoilt m' :=
  h.imp (fun hp => hstep.extends.1 hp) fun ha => hstep.extends.2 ha

/-- What is spoilt is not safe. -/
theorem Spoilt.not_safe {m : Menu} (h : Spoilt m) : ¬ MenuSafe m := fun hsafe =>
  h.elim hsafe.printed hsafe.accepted

/-- The menu drawn before `test_roms[5]` is assigned has a `NULL` string in it. -/
theorem spoilt_drawMenu {m : Menu} (h : m.testRoms 5 = none) : Spoilt (drawMenu m) := by
  rw [drawMenu_eq]
  exact .inl (List.mem_append_right _ (h ▸ testRoms_mem_menuText (by decide)))

/-- **A key that comes too early** spoils the menu. -/
theorem MenuStep.spoilt {m m' : Menu} {e : MenuEvent} (h : MenuInv m) (ht : ¬ Timely m e)
    (hstep : MenuStep m e m') : Spoilt m' := by
  cases hstep with
  | statement => exact absurd trivial ht
  | wait => exact absurd trivial ht
  | scancode byte =>
      obtain ⟨hsel, hkey⟩ := not_or.mp ht
      rw [Bool.not_eq_true] at hsel
      rcases not_and_or.mp hkey with hkey | hkey
      · obtain ⟨hbyte, hpc⟩ := Classical.not_imp.mp hkey
        have hrom : m.testRoms 5 = none := by rw [h.roms 5 (by decide), if_neg (by omega)]
        rcases hbyte with rfl | rfl
        · have e : handleScancode 0x11 m = decrementCursor m := by simp [handleScancode, hsel]
          rw [e, decrementCursor]
          exact spoilt_drawMenu (by split <;> exact hrom)
        · have e : handleScancode 0x1F m = incrementCursor m := by simp [handleScancode, hsel]
          rw [e, incrementCursor]
          exact spoilt_drawMenu (by split <;> exact hrom)
      · obtain ⟨rfl, hinit, hd⟩ : byte = 0x1C ∧ m.kernelInitialized = true ∧ m.draws = 0 := by
          simpa using hkey
        have e : handleScancode 0x1C m = m.selectRom := by simp [handleScancode, hinit]
        rw [e]
        refine .inr ?_
        show none ∈ if m.romSelected then m.accepted else m.accepted ++ [highlighted m.shown]
        rw [hsel, h.undrawn hd]
        exact List.mem_append_right _ List.mem_cons_self

/-- **The menu is safe in exactly the runs in which no key comes too early.** -/
theorem menuSafe_iff_timely {es : List MenuEvent} {m : Menu} (hrun : Run MenuStep .start es m) :
    MenuSafe m ↔ Run (Meeting Timely MenuStep) .start es m := by
  constructor
  · intro hsafe
    exact hrun.meeting_of_not .start (fun _ _ _ => MenuStep.inv) (fun _ _ _ => MenuStep.spoilt)
      (fun _ _ _ => Spoilt.step) fun hspoilt => hspoilt.not_safe hsafe
  · intro htimely
    have hinv : MenuInv m := htimely.invariant .start fun _ _ _ => MenuStep.inv
    exact hinv.safe

/-- The menu after a statement that does not wait, or after a key. -/
def Menu.next (m : Menu) : MenuEvent → Menu
  | .statement =>
    match kernelMain[m.pc]? with
    | some st => { st.execute m with pc := m.pc + 1 }
    | none => m
  | .scancode byte => handleScancode byte m

instance (m : Menu) (byte : U8) : Decidable (Timely m (.scancode byte)) :=
  inferInstanceAs (Decidable (_ ∨ _))

/-- There is such a statement, or the key does not come too early. -/
def Menu.ready (m : Menu) : MenuEvent → Bool
  | .statement => kernelMain[m.pc]?.any (· ≠ .waitForRom)
  | .scancode byte => Timely m (.scancode byte)

theorem Menu.next_meeting (m : Menu) (e : MenuEvent) (h : m.ready e = true) :
    Meeting Timely MenuStep m e (m.next e) := by
  cases e with
  | statement =>
      obtain ⟨st, hst, hne⟩ := (Option.any_eq_true _ _).mp h
      refine ⟨trivial, ?_⟩
      rw [Menu.next, hst]
      exact .statement hst fun hwait => absurd hwait (of_decide_eq_true hne)
  | scancode byte => exact ⟨of_decide_eq_true h, .scancode m byte⟩

/-- S is pressed when all paths are there, and Enter when the menu has been drawn. -/
def secondRom : List MenuEvent :=
  List.replicate 7 .statement ++ [.scancode 0x1F, .statement, .scancode 0x1C]

/-- The second ROM is highlighted, and is what Enter accepts. -/
theorem menuSafe_secondRom : ∃ m, Run MenuStep .start secondRom m ∧ MenuSafe m ∧
    m.accepted = [some (some (romPath 1))] := by
  have hrun : Run (Meeting Timely MenuStep) .start secondRom (secondRom.foldl Menu.next .start) :=
    Run.of_allAlong Menu.next_meeting (by decide +kernel)
  have hsteps := hrun.mono fun _ _ _ h => h.2
  exact ⟨_, hsteps, (menuSafe_iff_timely hsteps).mpr hrun, by decide +kernel⟩

/-- W is pressed before anything else happens. -/
theorem early_key_spoils :
    ¬ ∀ es m, Run MenuStep .start es m → MenuSafe m := by
  intro h
  have hsafe := h [.scancode 0x11] _ (.one (.scancode .start 0x11))
  have e : handleScancode 0x11 .start = decrementCursor .start := by
    simp [handleScancode, Menu.start]
  rw [e, decrementCursor] at hsafe
  exact (spoilt_drawMenu rfl).not_safe hsafe

end KernelNES.Kernel
