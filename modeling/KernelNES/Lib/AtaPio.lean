import KernelNES.Lib.CInt
import KernelNES.Lib.Exec
import Mathlib.Data.List.Basic

/-!
# Lib — AtaPio

An ATA disk that is read through its ports, one word at a time.  A program writes the sector number,
in 28 bits, and the number of sectors to the registers of the drive, and then the command.  The drive
fetches the sectors one after the other: reads of its status find it busy for a while, and then
ready, until the 256 words of the sector are taken.  A drive that cannot fetch a sector fails, and is
not ready again before the next command.

`Drive` is any device whose ports do this; nothing is said of what it is made of, or of how long it
is busy.  A program that waits until the drive is ready and takes the words (`takeSectors`) has the
sectors it commanded (`takeSectors_reads`); where it wants more than there are, it waits for ever
(`takeSectors_hangs`).  `EndsIn` and `Hangs` compose along a program.  `timedDrive` is a drive whose
delays can be chosen.
-/

namespace KernelNES.Lib.AtaPio

/-! ### The disk -/

/-- What is on a disk: `size` sectors of 256 words. -/
structure Image where
  size : Nat
  word : (lba i : Nat) → U16
  size_lt : size < 2 ^ 28

/-- The words of a sector. -/
def Image.sector (image : Image) (lba : Nat) : List U16 := (List.range 256).map (image.word lba)

/-- The words of `n` sectors. -/
def Image.sectors (image : Image) : (n lba : Nat) → List U16
  | 0, _       => []
  | n + 1, lba => image.sector lba ++ image.sectors n (lba + 1)

/-- The sectors, if the disk has them. -/
def Image.read (image : Image) (lba n : Nat) : Option (List U16) :=
  if lba + n ≤ image.size then some (image.sectors n lba) else none

/-! ### The drive -/

/-- The registers of a command. -/
structure Registers where
  count : U8
  low : U8
  mid : U8
  high : U8
  head : U8
  deriving DecidableEq

/-- A register is written at its port. -/
def Registers.write (r : Registers) (port : U16) (val : U8) : Registers :=
  if port = 0x1F2 then { r with count := val }
  else if port = 0x1F3 then { r with low := val }
  else if port = 0x1F4 then { r with mid := val }
  else if port = 0x1F5 then { r with high := val }
  else if port = 0x1F6 then { r with head := val }
  else r

/-- The head register selects the drive, of the two there may be. -/
def Registers.Selected (r : Registers) : Prop := r.head.getLsbD 4 = false

instance (r : Registers) : Decidable r.Selected := inferInstanceAs (Decidable (_ = _))

/-- The sector number in the registers. -/
def Registers.address (r : Registers) : Nat :=
  (r.head &&& 0x0F).toNat * 2 ^ 24 + r.high.toNat * 2 ^ 16 + r.mid.toNat * 2 ^ 8 + r.low.toNat

/-- The number of sectors in the registers. -/
def Registers.wanted (r : Registers) : Nat := if r.count = 0 then 256 else r.count.toNat

/-- What a drive is doing. -/
inductive Phase where
  | idle
  | failed
  /-- The sector `lba`, and `left - 1` others, are to be fetched. -/
  | busy (lba left : Nat)
  /-- `taken` words of the sector have been read. -/
  | ready (lba left taken : Nat)
  deriving DecidableEq

/-- A sector is taken, with its last word. -/
def Phase.behind (lba left : Nat) : Phase :=
  if left ≤ 1 then .idle else .busy (lba + 1) (left - 1)

/-- A word of a sector is taken. -/
def Phase.next (lba left taken : Nat) : Phase :=
  if taken < 255 then .ready lba left (taken + 1) else .behind lba left

/-- What reads and writes of ports do to a device. -/
structure Ports (D : Type) where
  inb : (port : U16) → D → U8 × D
  inw : (port : U16) → D → U16 × D
  outb : (port : U16) → (val : U8) → D → D

/-- A drive: a device with the ports of one.  What a program relies on is that an idle drive takes
what is written to its registers, and `READ SECTORS` by number; that bit `0x08` of its status says
that it is ready; and that it is busy for no more than a while, the longest being `delay`. -/
structure Drive (D : Type) extends Ports D where
  image : Image
  registers : D → Registers
  phase : D → Phase
  delay : D → Nat
  written {d : D} (port : U16) (val : U8) (hidle : phase d = .idle)
    (hport : 0x1F2 ≤ port ∧ port ≤ 0x1F6) :
    registers (outb port val d) = (registers d).write port val ∧ phase (outb port val d) = .idle
  commanded {d : D} (hidle : phase d = .idle) (hlba : (registers d).head.getLsbD 6 = true) :
    registers (outb 0x1F7 0x20 d) = registers d ∧
      phase (outb 0x1F7 0x20 d) =
        if (registers d).Selected then .busy (registers d).address (registers d).wanted else .idle
  status_same (d : D) : registers (inb 0x1F7 d).2 = registers d
  status_stuck {d : D}
    (hstuck : ¬ (registers d).Selected ∨ phase d = .idle ∨ phase d = .failed) :
    (inb 0x1F7 d).1 &&& 0x08 = 0 ∧ phase (inb 0x1F7 d).2 = phase d
  status_busy {d : D} {lba left : Nat} (hsel : (registers d).Selected)
    (hbusy : phase d = .busy lba left) :
    ((inb 0x1F7 d).1 &&& 0x08 = 0 ∧ phase (inb 0x1F7 d).2 = .busy lba left ∧
        delay (inb 0x1F7 d).2 < delay d) ∨
      ((inb 0x1F7 d).1 &&& 0x08 ≠ 0 ∧ phase (inb 0x1F7 d).2 = .ready lba left 0 ∧
        lba < image.size) ∨
      ((inb 0x1F7 d).1 &&& 0x08 = 0 ∧ phase (inb 0x1F7 d).2 = .failed ∧ image.size ≤ lba)
  data_ready {d : D} {lba left taken : Nat} (hsel : (registers d).Selected)
    (hready : phase d = .ready lba left taken) :
    (inw 0x1F0 d).1 = image.word lba taken ∧ registers (inw 0x1F0 d).2 = registers d ∧
      phase (inw 0x1F0 d).2 = .next lba left taken

/-! ### Programs -/

/-- How a program stops: it waits for ever, or at a fault of its own. -/
inductive Stop (ε : Type) where
  | waiting
  | fault (e : ε)

/-- A program that uses the ports of a device. -/
abbrev Pio (ε D : Type) := Exec (Stop ε) D

section
variable {ε D : Type} (ports : Ports D)

/-- `in al, dx`. -/
def inb (port : U16) : Pio ε D U8 := fun d => .ok (ports.inb port d)

/-- `in ax, dx`. -/
def inw (port : U16) : Pio ε D U16 := fun d => .ok (ports.inw port d)

/-- `out dx, al`. -/
def outb (port : U16) (val : U8) : Pio ε D Unit := fun d => .ok ((), ports.outb port val d)

/-- The status is read until the drive is ready, at most `fuel` times. -/
def awaitReady : (fuel : Nat) → Pio ε D Unit
  | 0        => Exec.fault .waiting
  | fuel + 1 => do
    let c ← inb ports 0x1F7
    if c &&& 0x08 ≠ 0 then pure () else awaitReady fuel

/-- `n` words are taken. -/
def takeWords : (n : Nat) → Pio ε D (List U16)
  | 0     => pure []
  | n + 1 => do
    let w ← inw ports 0x1F0
    let ws ← takeWords n
    pure (w :: ws)

/-- `n` sectors are waited for and taken. -/
def takeSectors : (n fuel : Nat) → Pio ε D (List U16)
  | 0, _        => pure []
  | n + 1, fuel => do
    awaitReady ports fuel
    let sector ← takeWords ports 256
    let sectors ← takeSectors n fuel
    pure (sector ++ sectors)

end

/-! ### Ends -/

section
variable {ε D α β : Type}

/-- With enough waiting, and not before, `x` ends with `a` and leaves the drive as `d'`. -/
def EndsIn (x : Nat → Pio ε D α) (d : D) (a : α) (d' : D) : Prop :=
  ∃ enough, ∀ fuel, x fuel d = if enough ≤ fuel then .ok (a, d') else .error .waiting

/-- However long it waits, `x` does not end. -/
def Hangs (x : Nat → Pio ε D α) (d : D) : Prop := ∀ fuel, x fuel d = .error .waiting

theorem EndsIn.of_ok {x : Pio ε D α} {d d' : D} {a : α} (h : x d = .ok (a, d')) :
    EndsIn (fun _ => x) d a d' :=
  ⟨0, fun fuel => h.trans (if_pos (Nat.zero_le fuel)).symm⟩

theorem EndsIn.pure (a : α) (d : D) : EndsIn (fun _ => (pure a : Pio ε D α)) d a d := .of_ok rfl

/-- What ends does so in one way. -/
theorem EndsIn.unique {x : Nat → Pio ε D α} {d d₁ d₂ : D} {a₁ a₂ : α} (h₁ : EndsIn x d a₁ d₁)
    (h₂ : EndsIn x d a₂ d₂) : a₁ = a₂ ∧ d₁ = d₂ := by
  obtain ⟨n₁, h₁⟩ := h₁
  obtain ⟨n₂, h₂⟩ := h₂
  have hsame := (h₁ (max n₁ n₂)).symm.trans (h₂ (max n₁ n₂))
  rw [if_pos (le_max_left _ _), if_pos (le_max_right _ _)] at hsame
  cases hsame
  exact ⟨rfl, rfl⟩

/-- Code that hangs ends with no answer, however long it waits. -/
theorem Hangs.not_endsIn {x : Nat → Pio ε D α} {d d' : D} {a : α} (h : Hangs x d) :
    ¬ EndsIn x d a d' := by
  rintro ⟨enough, hends⟩
  have hend := hends enough
  rw [h enough, if_pos le_rfl] at hend
  cases hend

/-- A sequence ends when its parts do. -/
theorem EndsIn.bind {x : Nat → Pio ε D α} {f : Nat → α → Pio ε D β} {d d₁ d' : D} {a : α} {b : β}
    (hx : EndsIn x d a d₁) (hf : EndsIn (fun fuel => f fuel a) d₁ b d') :
    EndsIn (fun fuel => x fuel >>= f fuel) d b d' := by
  obtain ⟨n, hx⟩ := hx
  obtain ⟨k, hf⟩ := hf
  refine ⟨max n k, fun fuel => ?_⟩
  show (x fuel >>= f fuel) d = _
  have hfirst := hx fuel
  by_cases hn : n ≤ fuel
  · rw [if_pos hn] at hfirst
    rw [Exec.bind_ok hfirst, show f fuel a d₁ = _ from hf fuel]
    simp only [max_le_iff, hn, true_and]
  · rw [if_neg hn] at hfirst
    rw [Exec.bind_error hfirst, if_neg (by omega)]

/-- A sequence hangs where its first part does, -/
theorem Hangs.bind {x : Nat → Pio ε D α} {d : D} (f : Nat → α → Pio ε D β) (h : Hangs x d) :
    Hangs (fun fuel => x fuel >>= f fuel) d :=
  fun fuel => Exec.bind_error (h fuel)

/-- or behind it. -/
theorem EndsIn.bind_hangs {x : Nat → Pio ε D α} {f : Nat → α → Pio ε D β} {d d₁ : D} {a : α}
    (hx : EndsIn x d a d₁) (hf : Hangs (fun fuel => f fuel a) d₁) :
    Hangs (fun fuel => x fuel >>= f fuel) d := by
  obtain ⟨n, hx⟩ := hx
  intro fuel
  have hfirst := hx fuel
  by_cases hn : n ≤ fuel
  · rw [if_pos hn] at hfirst
    exact (Exec.bind_ok hfirst).trans (hf fuel)
  · rw [if_neg hn] at hfirst
    exact Exec.bind_error hfirst

end

/-! ### Waiting -/

section
variable {ε D : Type} (drive : Drive D) {d : D} {lba left : Nat}

/-- The drive does not get ready by itself. -/
def Drive.Stuck (d : D) : Prop :=
  ¬ (drive.registers d).Selected ∨ drive.phase d = .idle ∨ drive.phase d = .failed

/-- The drive does not get ready: it is stuck, or is looking for a sector that is not there. -/
def Drive.NeverReady (d : D) : Prop :=
  drive.Stuck d ∨ ∃ lba left, drive.phase d = .busy lba left ∧ drive.image.size ≤ lba

variable {drive}

/-- A status read shows no data request, and the drive stays without one. -/
theorem Drive.NeverReady.status (h : drive.NeverReady d) :
    (drive.inb 0x1F7 d).1 &&& 0x08 = 0 ∧ drive.NeverReady (drive.inb 0x1F7 d).2 := by
  have hsame := drive.status_same d
  by_cases hstuck : drive.Stuck d
  · obtain ⟨hbit, hphase⟩ := drive.status_stuck hstuck
    refine ⟨hbit, .inl ?_⟩
    rwa [Stuck, hsame, hphase]
  · obtain ⟨lba, left, hbusy, hlba⟩ := h.resolve_left hstuck
    have hsel : (drive.registers d).Selected := by
      by_contra hsel
      exact hstuck (.inl hsel)
    rcases drive.status_busy hsel hbusy with ⟨hbit, hphase, -⟩ | ⟨-, -, hlt⟩ | ⟨hbit, hphase, -⟩
    · exact ⟨hbit, .inr ⟨lba, left, hphase, hlba⟩⟩
    · omega
    · exact ⟨hbit, .inl (.inr (.inr hphase))⟩

/-- One round of the waiting loop. -/
theorem awaitReady_succ (ports : Ports D) (fuel : Nat) (d : D) :
    (awaitReady ports (fuel + 1) : Pio ε D Unit) d =
      if (ports.inb 0x1F7 d).1 &&& 0x08 ≠ 0 then .ok ((), (ports.inb 0x1F7 d).2)
      else awaitReady ports fuel (ports.inb 0x1F7 d).2 := by
  have hin : (inb ports 0x1F7 : Pio ε D U8) d =
      .ok ((ports.inb 0x1F7 d).1, (ports.inb 0x1F7 d).2) := rfl
  rw [awaitReady, Exec.bind_ok hin]
  by_cases hready : (ports.inb 0x1F7 d).1 &&& 0x08 ≠ 0
  · rw [if_pos hready, if_pos hready]
    rfl
  · rw [if_neg hready, if_neg hready]

/-- On a drive that never asks for data the waiting loop hangs. -/
theorem awaitReady_hangs (h : drive.NeverReady d) :
    Hangs (ε := ε) (awaitReady drive.toPorts) d := by
  intro fuel
  induction fuel generalizing d with
  | zero => rfl
  | succ fuel ih =>
      obtain ⟨hbit, hnever⟩ := h.status
      rw [awaitReady_succ, if_neg (not_not.mpr hbit), ih hnever]

/-- **Waiting for a sector** of the disk ends when the drive is ready. -/
theorem awaitReady_ends (hsel : (drive.registers d).Selected)
    (hbusy : drive.phase d = .busy lba left) (hlba : lba < drive.image.size) :
    ∃ d', EndsIn (ε := ε) (awaitReady drive.toPorts) d () d' ∧
      drive.registers d' = drive.registers d ∧ drive.phase d' = .ready lba left 0 := by
  -- by induction on the delay that is left
  induction hn : drive.delay d using Nat.strong_induction_on generalizing d with
  | _ n ih =>
    have hsame := drive.status_same d
    rcases drive.status_busy hsel hbusy with
      ⟨hbit, hphase, hdelay⟩ | ⟨hbit, hphase, -⟩ | ⟨-, -, hbeyond⟩
    · obtain ⟨d', ⟨enough, hends⟩, hregisters, hready⟩ :=
        ih _ (hn ▸ hdelay) (hsame.symm ▸ hsel) hphase rfl
      refine ⟨d', ⟨enough + 1, fun fuel => ?_⟩, hregisters.trans hsame, hready⟩
      cases fuel with
      | zero => rfl
      | succ fuel =>
          rw [awaitReady_succ, if_neg (not_not.mpr hbit), hends]
          simp only [Nat.succ_le_succ_iff]
    · refine ⟨_, ⟨1, fun fuel => ?_⟩, hsame, hphase⟩
      cases fuel with
      | zero => rfl
      | succ fuel => rw [awaitReady_succ, if_pos hbit, if_pos (by omega)]
    · omega

/-! ### Taking -/

/-- The words of a sector that is ready come in order, and the drive stands behind it. -/
theorem takeWords_ready (hsel : (drive.registers d).Selected) {n taken : Nat} (hn : 0 < n)
    (hend : taken + n = 256) (hready : drive.phase d = .ready lba left taken) :
    ∃ d', (takeWords drive.toPorts n : Pio ε D (List U16)) d =
        .ok ((List.range n).map fun i => drive.image.word lba (taken + i), d') ∧
      drive.registers d' = drive.registers d ∧ drive.phase d' = .behind lba left := by
  induction n generalizing d taken with
  | zero => omega
  | succ n ih =>
      obtain ⟨hword, hsame, hphase⟩ := drive.data_ready hsel hready
      have hin : (inw drive.toPorts 0x1F0 : Pio ε D U16) d =
          .ok (drive.image.word lba taken, (drive.inw 0x1F0 d).2) := by
        rw [← hword]
        rfl
      rw [takeWords, Exec.bind_ok hin, List.range_succ_eq_map, List.map_cons, List.map_map]
      rcases Nat.eq_zero_or_pos n with rfl | hpos
      · rw [Phase.next, if_neg (by omega)] at hphase
        exact ⟨_, rfl, hsame, hphase⟩
      · rw [Phase.next, if_pos (by omega)] at hphase
        obtain ⟨d', hrest, hregisters, hbehind⟩ :=
          ih (hsame.symm ▸ hsel) hpos (by omega) hphase
        refine ⟨d', ?_, hregisters.trans hsame, hbehind⟩
        have hshift : ∀ i, taken + 1 + i = taken + (i + 1) := fun i => by omega
        rw [Exec.bind_ok hrest]
        simp only [hshift]
        rfl

/-- The words of a sector, once the drive is ready. -/
theorem takeWords_sector (hsel : (drive.registers d).Selected)
    (hready : drive.phase d = .ready lba left 0) :
    ∃ d', (takeWords drive.toPorts 256 : Pio ε D (List U16)) d = .ok (drive.image.sector lba, d') ∧
      drive.registers d' = drive.registers d ∧ drive.phase d' = .behind lba left := by
  obtain ⟨d', hwords, hrest⟩ := takeWords_ready (ε := ε) hsel (by decide) (show 0 + 256 = 256 from rfl) hready
  refine ⟨d', hwords.trans ?_, hrest⟩
  simp only [Nat.zero_add]
  rfl

/-- The first sector, and the others. -/
theorem takeSectors_succ (ports : Ports D) (n : Nat) :
    (takeSectors ports (n + 1) : Nat → Pio ε D (List U16)) = fun fuel =>
      awaitReady ports fuel >>= fun _ => takeWords ports 256 >>= fun sector =>
        takeSectors ports n fuel >>= fun sectors => pure (sector ++ sectors) := rfl

/-- A sector of the disk is waited for and taken, and then the others are. -/
theorem takeSectors_first (hsel : (drive.registers d).Selected)
    (hbusy : drive.phase d = .busy lba left) (hlba : lba < drive.image.size) :
    ∃ d₁, (drive.registers d₁).Selected ∧ drive.phase d₁ = .behind lba left ∧
      (∀ {n : Nat} {ws : List U16} {d' : D}, EndsIn (ε := ε) (takeSectors drive.toPorts n) d₁ ws d' →
        EndsIn (ε := ε) (takeSectors drive.toPorts (n + 1)) d (drive.image.sector lba ++ ws) d') ∧
      ∀ {n : Nat}, Hangs (ε := ε) (takeSectors drive.toPorts n) d₁ →
        Hangs (ε := ε) (takeSectors drive.toPorts (n + 1)) d := by
  obtain ⟨d₀, hwait, hsame₀, hready⟩ := awaitReady_ends (ε := ε) hsel hbusy hlba
  have hsel₀ : (drive.registers d₀).Selected := hsame₀ ▸ hsel
  obtain ⟨d₁, htake, hsame₁, hbehind⟩ := takeWords_sector (ε := ε) hsel₀ hready
  have hsel₁ : (drive.registers d₁).Selected := hsame₁ ▸ hsel₀
  refine ⟨d₁, hsel₁, hbehind, fun hrest => ?_, fun hrest => ?_⟩
  · rw [takeSectors_succ]
    exact hwait.bind ((EndsIn.of_ok htake).bind (hrest.bind (.pure _ _)))
  · rw [takeSectors_succ]
    exact hwait.bind_hangs ((EndsIn.of_ok htake).bind_hangs (Hangs.bind _ hrest))

/-- A drive that does not get ready has no sector. -/
theorem takeSectors_never {n : Nat} (h : drive.NeverReady d) (hn : 0 < n) :
    Hangs (ε := ε) (takeSectors drive.toPorts n) d := by
  obtain ⟨n, rfl⟩ := Nat.exists_eq_succ_of_ne_zero hn.ne'
  exact Hangs.bind _ (awaitReady_hangs h)

/-- **The sectors that were commanded** are read, and with the last of them the drive is idle. -/
theorem takeSectors_reads {n : Nat} (hsel : (drive.registers d).Selected)
    (hbusy : drive.phase d = .busy lba left) (hn : 0 < n) (hleft : n ≤ left)
    (hsize : lba + n ≤ drive.image.size) :
    ∃ d', EndsIn (ε := ε) (takeSectors drive.toPorts n) d (drive.image.sectors n lba) d' ∧
      (drive.phase d' = .idle ↔ n = left) := by
  induction n generalizing d lba left with
  | zero => omega
  | succ n ih =>
      obtain ⟨d₁, hsel₁, hbehind, hends, -⟩ :=
        takeSectors_first (ε := ε) hsel hbusy (show lba < drive.image.size by omega)
      rcases Nat.eq_zero_or_pos n with rfl | hpos
      · refine ⟨d₁, hends (.pure [] _), ?_⟩
        rw [hbehind, Phase.behind]
        split
        · exact iff_of_true rfl (by omega)
        · exact iff_of_false nofun (by omega)
      · rw [Phase.behind, if_neg (by omega)] at hbehind
        obtain ⟨d', hrest, hidle⟩ := ih hsel₁ hbehind hpos (by omega) (by omega)
        exact ⟨d', hends hrest, hidle.trans (by omega)⟩

/-- **More than was commanded, or than the disk has,** is waited for for ever. -/
theorem takeSectors_hangs {n : Nat} (hsel : (drive.registers d).Selected)
    (hbusy : drive.phase d = .busy lba left) (hleft : 0 < left) (hn : 0 < n)
    (hmore : left < n ∨ drive.image.size < lba + n) :
    Hangs (ε := ε) (takeSectors drive.toPorts n) d := by
  induction n generalizing d lba left with
  | zero => omega
  | succ n ih =>
      rcases Nat.lt_or_ge lba drive.image.size with hlba | hlba
      · obtain ⟨d₁, hsel₁, hbehind, -, hhangs⟩ := takeSectors_first (ε := ε) hsel hbusy hlba
        refine hhangs ?_
        rw [Phase.behind] at hbehind
        split at hbehind
        · -- the drive is idle, and another sector is wanted
          exact takeSectors_never (.inl (.inr (.inl hbehind))) (by omega)
        · exact ih hsel₁ hbehind (by omega) (by omega) (by omega)
      · exact takeSectors_never (.inr ⟨lba, left, hbusy, hlba⟩) hn

end

/-! ### A drive -/

/-- The state of a drive: `wait` is how often it is still found busy, and `fetched` how many sectors
it has fetched so far. -/
structure TimedState where
  registers : Registers
  phase : Phase
  wait : Nat
  fetched : Nat

section
variable (image : Image) (latency : Nat → Nat) (d : TimedState)

/-- A sector is fetched: `latency` is how often the drive is found busy meanwhile. -/
def TimedState.fetch (lba left : Nat) : TimedState :=
  { d with phase := .busy lba left, wait := latency d.fetched, fetched := d.fetched + 1 }

/-- A command: `READ SECTORS`, by number, is the one the drive knows. -/
def TimedState.command (c : U8) : TimedState :=
  if ¬ d.registers.Selected then d
  else if (d.phase = .idle ∨ d.phase = .failed) ∧ c = 0x20 ∧ d.registers.head.getLsbD 6 then
    d.fetch latency d.registers.address d.registers.wanted
  else { d with phase := .failed }

/-- The status register: `0x80` busy, `0x08` ready with a word, `0x01` failed. -/
def TimedState.status : U8 × TimedState :=
  if ¬ d.registers.Selected then (0x00, d)
  else
    match d.phase with
    | .idle => (0x40, d)
    | .failed => (0x41, d)
    | .busy lba left =>
      if 0 < d.wait then (0x80, { d with wait := d.wait - 1 })
      else if lba < image.size then (0x48, { d with phase := .ready lba left 0 })
      else (0x41, { d with phase := .failed })
    | .ready _ _ _ => (0x48, d)

/-- The data register. -/
def TimedState.data : U16 × TimedState :=
  match d.phase with
  | .ready lba left taken =>
    if ¬ d.registers.Selected then (0, d)
    else (image.word lba taken,
      match Phase.next lba left taken with
      | .busy lba left => d.fetch latency lba left
      | phase => { d with phase })
  | _ => (0, d)

end

/-- Its ports. -/
def timedPorts (image : Image) (latency : Nat → Nat) : Ports TimedState where
  inb port d := if port = 0x1F7 then d.status image else (0, d)
  inw port d := if port = 0x1F0 then d.data image latency else (0, d)
  outb port val d :=
    if port = 0x1F7 then d.command latency val
    else { d with registers := d.registers.write port val }

/-- A status read changes no register. -/
theorem timed_status_same (image : Image) (d : TimedState) :
    (d.status image).2.registers = d.registers := by
  rw [TimedState.status]
  split
  · rfl
  · split <;> try rfl
    split_ifs <;> rfl

/-- Unselected, idle or failed, the drive asks for no data. -/
theorem timed_status_stuck (image : Image) {d : TimedState}
    (h : ¬ d.registers.Selected ∨ d.phase = .idle ∨ d.phase = .failed) :
    (d.status image).1 &&& 0x08 = 0 ∧ (d.status image).2.phase = d.phase := by
  rw [TimedState.status]
  by_cases hsel : d.registers.Selected
  · rw [if_neg (not_not.mpr hsel)]
    rcases h with h | h | h
    · exact absurd hsel h
    · rw [h]; exact ⟨show (0x40 : U8) &&& 0x08 = 0 by decide, h⟩
    · rw [h]; exact ⟨show (0x41 : U8) &&& 0x08 = 0 by decide, h⟩
  · rw [if_pos hsel]
    exact ⟨show (0x00 : U8) &&& 0x08 = 0 by decide, rfl⟩

/-- Busy, a status read waits on, or finds the sector ready, or finds that there is none. -/
theorem timed_status_busy (image : Image) {d : TimedState} {lba left : Nat}
    (hsel : d.registers.Selected) (h : d.phase = .busy lba left) :
    ((d.status image).1 &&& 0x08 = 0 ∧ (d.status image).2.phase = .busy lba left ∧
        (d.status image).2.wait < d.wait) ∨
      ((d.status image).1 &&& 0x08 ≠ 0 ∧ (d.status image).2.phase = .ready lba left 0 ∧
        lba < image.size) ∨
      ((d.status image).1 &&& 0x08 = 0 ∧ (d.status image).2.phase = .failed ∧
        image.size ≤ lba) := by
  rw [TimedState.status, if_neg (not_not.mpr hsel), h]
  dsimp only
  split_ifs with hwait hlba
  · exact .inl ⟨show (0x80 : U8) &&& 0x08 = 0 by decide, rfl, Nat.sub_one_lt (by omega)⟩
  · exact .inr (.inl ⟨show (0x48 : U8) &&& 0x08 ≠ 0 by decide, rfl, hlba⟩)
  · exact .inr (.inr ⟨show (0x41 : U8) &&& 0x08 = 0 by decide, rfl, by omega⟩)

/-- A data read takes the next word of the sector that is ready. -/
theorem timed_data_ready (image : Image) (latency : Nat → Nat) {d : TimedState}
    {lba left taken : Nat} (hsel : d.registers.Selected) (h : d.phase = .ready lba left taken) :
    (d.data image latency).1 = image.word lba taken ∧
      (d.data image latency).2.registers = d.registers ∧
      (d.data image latency).2.phase = .next lba left taken := by
  rw [TimedState.data, h]
  dsimp only
  rw [if_neg (not_not.mpr hsel)]
  split <;> rename_i hnext
  · exact ⟨rfl, rfl, hnext.symm⟩
  · exact ⟨rfl, rfl, rfl⟩

/-- The drive with these delays. -/
def timedDrive (image : Image) (latency : Nat → Nat) : Drive TimedState where
  toPorts := timedPorts image latency
  image := image
  registers := TimedState.registers
  phase := TimedState.phase
  delay := TimedState.wait
  written {d} port val hidle hport := by
    have hne : port ≠ 0x1F7 := by bv_omega
    simp only [timedPorts, if_neg hne]
    exact ⟨trivial, hidle⟩
  commanded {d} hidle hlba := by
    show (d.command latency 0x20).registers = d.registers ∧ (d.command latency 0x20).phase = _
    rw [TimedState.command]
    by_cases hsel : d.registers.Selected
    · rw [if_neg (not_not.mpr hsel), if_pos ⟨.inl hidle, rfl, hlba⟩, if_pos hsel]
      exact ⟨rfl, rfl⟩
    · rw [if_pos hsel, if_neg hsel]
      exact ⟨rfl, hidle⟩
  status_same d := timed_status_same image d
  status_stuck hstuck := timed_status_stuck image hstuck
  status_busy hsel hbusy := timed_status_busy image hsel hbusy
  data_ready hsel hready := timed_data_ready image latency hsel hready

end KernelNES.Lib.AtaPio
