import KernelNES.Kernel.Terminal

/-!
# Kernel — Menu

The ROM menu: `kernel_main` of `src/kernel.c` from `enable_interrupts` on, and the keyboard handler
of `src/drivers/keyboard/keyboard.c`, which runs between any two of its statements.  Both work on
`cursor_index`, `test_roms`, `kernel_initialized` and `rom_selected`.  Interrupts are enabled before
`test_roms` is filled, and `kernel_initialized` is set before the menu is drawn; a key that comes
that early prints a `NULL` string, or selects a ROM nothing has highlighted.
-/

namespace KernelNES.Kernel
open KernelNES.Lib

/-- `NUM_ROMS`. -/
def numRoms : Nat := 7

/-- A statement of `kernel_main` behind `enable_interrupts`. -/
inductive Statement where
  /-- `kernel_initialized = true` -/
  | kernelInitialized
  /-- `test_roms[i] = …` -/
  | testRom (i : Nat)
  | drawMenu
  /-- `while(!rom_selected) {}` -/
  | waitForRom
  | terminalInitialize
  | emuEnableLogger
  | emuInit
  deriving DecidableEq, Repr

/-- The statements of `kernel_main` that the menu depends on. -/
def kernelMain : List Statement :=
  [.kernelInitialized, .testRom 0, .testRom 1, .testRom 2, .testRom 3, .testRom 4, .testRom 5,
    .drawMenu, .waitForRom, .terminalInitialize, .emuEnableLogger, .emuInit]

/-- The string assigned to `test_roms[i]`. -/
def romPath : Nat → List U8
  | 0 => cstr "0:/test1.nes"
  | 1 => cstr "0:/test2.nes"
  | 2 => cstr "0:/test3.nes"
  | 3 => cstr "0:/test4.nes"
  | 4 => cstr "0:/test5.nes"
  | _ => cstr "0:/test6.nes"

/-- The globals of the menu, and how many statements of `kernel_main` have been executed.  A
`NULL` string is `none`.  The other fields record what happened. -/
structure Menu where
  kernelInitialized : Bool
  romSelected : Bool
  cursorIndex : Int
  testRoms : Nat → Option (List U8)
  pc : Nat
  /-- What has been printed since the screen was reset. -/
  shown : List (Option (List U8))
  /-- Every string `draw_menu` has passed to `print`. -/
  printed : List (Option (List U8))
  /-- The entries `cursor_index` was the index of when it was read. -/
  read : List (Option (List U8))
  /-- What was highlighted, if anything, when `Enter` was accepted. -/
  accepted : List (Option (Option (List U8)))
  /-- The arguments of `emu_init`. -/
  started : List (Option (List U8))
  /-- How often `draw_menu` has been called. -/
  draws : Nat

/-- The menu when interrupts are enabled. -/
def Menu.start : Menu where
  kernelInitialized := false
  romSelected := false
  cursorIndex := 0
  testRoms := fun _ => none
  pc := 0
  shown := []
  printed := []
  read := []
  accepted := []
  started := []
  draws := 0

/-- The entry of `test_roms` that `cursor_index` is the index of. -/
def Menu.entry (m : Menu) : Option (List U8) :=
  if 0 ≤ m.cursorIndex ∧ m.cursorIndex < numRoms - 1 then m.testRoms m.cursorIndex.toNat else none

/-- `cursor_index` is read. -/
def Menu.readCursor (m : Menu) : Menu := { m with read := m.read ++ [m.entry] }

/-- `print`. -/
def Menu.print (m : Menu) (str : Option (List U8)) : Menu :=
  { m with shown := m.shown ++ [str], printed := m.printed ++ [str] }

/-- `print_spaces`. -/
def Menu.printSpaces (m : Menu) : (numSpaces : Nat) → Menu
  | 0 => m
  | n + 1 => (m.print (some (cstr " "))).printSpaces n

/-- What stands in front of the entry the cursor is at. -/
def arrow : List U8 := cstr " > "

/-- One round of the loop of `draw_menu`. -/
def menuRow (m : Menu) (i : Nat) : Menu :=
  let m := m.printSpaces 5
  let m := m.readCursor
  let m := if m.cursorIndex = i then m.print (some arrow) else m
  let m := m.print (m.testRoms i)
  m.print (some (cstr "\n"))

/-- The lines above the entries. -/
def menuHeader : List String := [
  "\n",
  "  mm   m mmmmm  mmmm                          \"\"#           m              \n",
  "  #\"m  # #     #\"   \"      mmm   mmmmm  m   m   #    mmm  mm#mm   mmm   m mm \n",
  "  # #m # #mmmm \"#mmm      #\"  #  # # #  #   #   #   \"   #   #    #\" \"#  #\"  \"\n",
  "  #  # # #         \"#     #\"\"\"\"  # # #  #   #   #   m\"\"\"#   #    #   #  #    \n",
  "  #   ## #mmmm \"mmm#\"     \"#mm\"  # # #  \"mm\"#   \"mm \"mm\"#   \"mm  \"#m#\"  #    \n",
  "\n",
  "\n",
  "   Press the W and S keys to select an NES rom, \n",
  "   then press Enter to run it in the emulator. \n\n",
  "   Once it runs, you can scroll through the tracelog with the W and S keys.\n\n"]

/-- `draw_menu`. -/
def drawMenu (m : Menu) : Menu :=
  let m := { m with shown := [], draws := m.draws + 1 }
  let m := menuHeader.foldl (fun m line => m.print (some (cstr line))) m
  (List.range (numRoms - 1)).foldl menuRow m

/-- `increment_cursor`. -/
def incrementCursor (m : Menu) : Menu :=
  let m := m.readCursor
  drawMenu (if m.cursorIndex < numRoms - 2 then { m with cursorIndex := m.cursorIndex + 1 } else m)

/-- `decrement_cursor`. -/
def decrementCursor (m : Menu) : Menu :=
  let m := m.readCursor
  drawMenu (if 0 < m.cursorIndex then { m with cursorIndex := m.cursorIndex - 1 } else m)

/-- The string printed behind the arrow. -/
def highlighted : List (Option (List U8)) → Option (Option (List U8))
  | [] => none
  | str :: rest => if str = some arrow then rest.head? else highlighted rest

/-- `rom_selected = true`; `Enter` is accepted when that changes something. -/
def Menu.selectRom (m : Menu) : Menu :=
  { m with
    romSelected := true
    accepted := if m.romSelected then m.accepted else m.accepted ++ [highlighted m.shown] }

/-- `handle_scancode`.  Once a ROM is selected, W and S scroll through the trace log, which is none
of the menu's. -/
def handleScancode (byte : U8) (m : Menu) : Menu :=
  if byte = 0x11 then
    if m.romSelected then m else decrementCursor m
  else if byte = 0x1F then
    if m.romSelected then m else incrementCursor m
  else if byte = 0x1C then
    if m.kernelInitialized then m.selectRom else m
  else m

/-- The statement, once it is its turn. -/
def Statement.execute : Statement → Menu → Menu
  | .kernelInitialized, m => { m with kernelInitialized := true }
  | .testRom i, m => { m with testRoms := Function.update m.testRoms i (some (romPath i)) }
  | .drawMenu, m => Kernel.drawMenu m
  | .waitForRom, m => m
  | .terminalInitialize, m => { m with shown := [] }
  | .emuEnableLogger, m => m
  | .emuInit, m => { m.readCursor with started := m.started ++ [m.entry] }

/-- What happens next: a statement of `kernel_main`, or `int21h_handler` reads a scancode. -/
inductive MenuEvent where
  | statement
  | scancode (byte : U8)
  deriving DecidableEq, Repr

/-- One step of the machine, in whatever order statements and scancodes come. -/
inductive MenuStep : Menu → MenuEvent → Menu → Prop where
  | statement {m : Menu} {st : Statement} (hst : kernelMain[m.pc]? = some st)
      (hwait : st = .waitForRom → m.romSelected = true) :
      MenuStep m .statement { st.execute m with pc := m.pc + 1 }
  /-- A round of the waiting loop. -/
  | wait {m : Menu} (hst : kernelMain[m.pc]? = some .waitForRom) (hwait : m.romSelected = false) :
      MenuStep m .statement m
  | scancode (m : Menu) (byte : U8) : MenuStep m (.scancode byte) (handleScancode byte m)

/-- No `NULL` string has been printed, the cursor has been at an entry whenever it was read, and
what `emu_init` was given was highlighted when `Enter` was accepted. -/
structure MenuSafe (m : Menu) : Prop where
  printed : none ∉ m.printed
  read : none ∉ m.read
  accepted : none ∉ m.accepted
  started : ∀ path ∈ m.started, m.accepted = [some path]

/-- The key does not come too early: W and S before a ROM is selected, only when `test_roms[5]` has
been assigned, and the `Enter` that selects one, only when the menu has been drawn. -/
def Timely (m : Menu) : MenuEvent → Prop
  | .statement => True
  | .scancode byte => m.romSelected = true ∨
    ((byte = 0x11 ∨ byte = 0x1F → 7 ≤ m.pc) ∧
      (byte = 0x1C → m.kernelInitialized = true → 0 < m.draws))

/-! ### What is drawn -/

/-- What `draw_menu` prints for an entry. -/
def rowText (cursorIndex : Int) (testRoms : Nat → Option (List U8)) (i : Nat) :
    List (Option (List U8)) :=
  List.replicate 5 (some (cstr " ")) ++ (if cursorIndex = i then [some arrow] else []) ++
    [testRoms i, some (cstr "\n")]

/-- What `draw_menu` prints. -/
def menuText (cursorIndex : Int) (testRoms : Nat → Option (List U8)) : List (Option (List U8)) :=
  menuHeader.map (fun line => some (cstr line)) ++
    (List.range (numRoms - 1)).flatMap (rowText cursorIndex testRoms)

section
variable (m : Menu)

/-- A row is printed behind what is shown. -/
theorem menuRow_eq (i : Nat) : menuRow m i =
    { m with
      shown := m.shown ++ rowText m.cursorIndex m.testRoms i
      printed := m.printed ++ rowText m.cursorIndex m.testRoms i
      read := m.read ++ [m.entry] } := by
  by_cases hi : m.cursorIndex = i <;>
    simp [menuRow, rowText, Menu.printSpaces, Menu.print, Menu.readCursor, Menu.entry, hi,
      List.replicate]

/-- So are several. -/
theorem foldl_menuRow (l : List Nat) : l.foldl menuRow m =
    { m with
      shown := m.shown ++ l.flatMap (rowText m.cursorIndex m.testRoms)
      printed := m.printed ++ l.flatMap (rowText m.cursorIndex m.testRoms)
      read := m.read ++ l.map fun _ => m.entry } := by
  induction l generalizing m with
  | nil => simp
  | cons i l ih =>
      rw [List.foldl_cons, ih, menuRow_eq]
      simp [Menu.entry]

/-- So are several lines. -/
theorem foldl_print (lines : List String) :
    lines.foldl (fun m line => m.print (some (cstr line))) m =
      { m with
        shown := m.shown ++ lines.map fun line => some (cstr line)
        printed := m.printed ++ lines.map fun line => some (cstr line) } := by
  induction lines generalizing m with
  | nil => simp
  | cons line lines ih =>
      rw [List.foldl_cons, ih]
      simp [Menu.print]

/-- `draw_menu` prints the menu behind what is shown. -/
theorem drawMenu_eq : drawMenu m =
    { m with
      shown := menuText m.cursorIndex m.testRoms
      printed := m.printed ++ menuText m.cursorIndex m.testRoms
      read := m.read ++ (List.range (numRoms - 1)).map fun _ => m.entry
      draws := m.draws + 1 } := by
  simp only [drawMenu, foldl_print, foldl_menuRow, menuText, List.nil_append, List.append_assoc]
  rfl

end

variable {cursorIndex : Int} {testRoms : Nat → Option (List U8)}

/-- The menu names every ROM. -/
theorem testRoms_mem_menuText {i : Nat} (hi : i < numRoms - 1) :
    testRoms i ∈ menuText cursorIndex testRoms := by
  refine List.mem_append_right _ (List.mem_flatMap.mpr ⟨i, List.mem_range.mpr hi, ?_⟩)
  simp [rowText]

/-- The only `NULL` strings are entries. -/
theorem none_notMem_menuText (h : ∀ i < numRoms - 1, testRoms i ≠ none) :
    none ∉ menuText cursorIndex testRoms := by
  intro hm
  rcases List.mem_append.mp hm with hm | hm
  · obtain ⟨_, -, hline⟩ := List.mem_map.mp hm
    cases hline
  · obtain ⟨i, hi, hm⟩ := List.mem_flatMap.mp hm
    simp only [rowText, List.mem_append, List.mem_replicate, List.mem_cons, List.not_mem_nil,
      or_false, reduceCtorEq, and_false, false_or] at hm
    rcases hm with hm | hm
    · split at hm <;> simp at hm
    · exact h i (List.mem_range.mp hi) hm.symm

/-- Only the last arrow counts. -/
theorem highlighted_append {a b : List (Option (List U8))} (h : some arrow ∉ a) :
    highlighted (a ++ b) = highlighted b := by
  induction a with
  | nil => rfl
  | cons str a ih =>
      rw [List.mem_cons, not_or] at h
      rw [List.cons_append, highlighted, if_neg (Ne.symm h.1), ih h.2]

/-- The row of another entry highlights nothing. -/
theorem arrow_notMem_rowText {i : Nat} (hi : cursorIndex ≠ i) (h : testRoms i ≠ some arrow) :
    some arrow ∉ rowText cursorIndex testRoms i := by
  have hspace : some arrow ≠ some (cstr " ") := by decide
  have hnl : some arrow ≠ some (cstr "\n") := by decide
  simp [rowText, if_neg hi, hspace, hnl, Ne.symm h]

theorem menuHeader_ne_arrow : ∀ line ∈ menuHeader, (cstr line)[1]? ≠ some (char '>') := by
  decide +kernel

/-- The entry the cursor is at is highlighted. -/
theorem highlighted_menuText {c : Nat} (hc : c < numRoms - 1)
    (h : ∀ i < numRoms - 1, testRoms i ≠ some arrow) :
    highlighted (menuText c testRoms) = some (testRoms c) := by
  have hheader : some arrow ∉ menuHeader.map (fun line => some (cstr line)) := by
    intro hm
    obtain ⟨line, hline, e⟩ := List.mem_map.mp hm
    exact menuHeader_ne_arrow line hline (Option.some.inj e ▸ rfl)
  have hspaces : some arrow ∉ List.replicate 5 (some (cstr " ")) := by decide
  -- the rows above the cursor's, the cursor's, and those below
  obtain ⟨n, hn⟩ : ∃ n, numRoms - 1 = c + (n + 1) := ⟨numRoms - 1 - c - 1, by omega⟩
  have habove : some arrow ∉ (List.range c).flatMap (rowText c testRoms) := by
    intro hm
    obtain ⟨i, hi, hm⟩ := List.mem_flatMap.mp hm
    rw [List.mem_range] at hi
    exact arrow_notMem_rowText (by omega) (h i (by omega)) hm
  rw [menuText, highlighted_append hheader, hn, List.range_add, List.flatMap_append,
    highlighted_append habove, List.range_succ_eq_map, List.map_cons, List.flatMap_cons,
    Nat.add_zero, rowText, if_pos rfl, List.append_assoc, List.append_assoc,
    highlighted_append hspaces]
  rfl

end KernelNES.Kernel
