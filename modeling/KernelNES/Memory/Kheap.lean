import KernelNES.Lib.Exec
import KernelNES.Memory.Heap

/-!
# Memory — Kheap

`src/memory/heap/kheap.c` as the rest of the kernel uses it.  An `Allocator` answers `kzalloc` and
`kfree` over its own state: `kheap` is the kernel heap; where the results of the allocations are all
that matters, the state can as well be the answers still to come (`answering`).  A `Ref` is a
pointer together with what its holder may do with it.
-/

namespace KernelNES.Memory
open KernelNES.Lib

/-- What stops the compiled code, or leaves what it does undefined. -/
inductive Fault where
  | nullDeref
  | useAfterFree
  | outOfBounds
  | divisionByZero
  | diverges
  deriving DecidableEq, Repr

/-- `kzalloc` and `kfree` over a state `H`.  A `kzalloc` that fails returns `0`. -/
structure Allocator (H : Type) where
  kzalloc : (size : U32) → H → U32 × H
  kfree : (ptr : U32) → H → H

/-- The kernel heap. -/
def Allocator.kheap : Allocator Heap where
  kzalloc size heap := heapMalloc heap size
  kfree ptr heap := heapFree heap ptr

/-- The `n`-th allocation is answered with `answers n`. -/
def Allocator.answering (answers : Nat → U32) : Allocator Nat where
  kzalloc _ n := (answers n, n + 1)
  kfree _ n := n

/-- A call of `kzalloc`. -/
def Allocator.callKzalloc {H : Type} (alloc : Allocator H) (size : U32) : Exec Fault H U32 :=
  fun h => .ok (alloc.kzalloc size h)

/-- A call of `kfree`. -/
def Allocator.callKfree {H : Type} (alloc : Allocator H) (ptr : U32) : Exec Fault H Unit :=
  fun h => .ok ((), alloc.kfree ptr h)

/-- A call of `kzalloc` whose result is written through at once. -/
def Allocator.kzallocWritten {H : Type} (alloc : Allocator H) (size : U32) : Exec Fault H U32 := do
  let ptr ← alloc.callKzalloc size
  if ptr = 0 then Exec.fault .nullDeref else pure ptr

/-- No allocation fails. -/
def Allocator.Succeeds {H : Type} (alloc : Allocator H) : Prop :=
  ∀ size h, (alloc.kzalloc size h).1 ≠ 0

/-- The blocks of the kernel heap in turn, over and over. -/
def Allocator.ample : Allocator Nat :=
  answering fun n => BitVec.ofNat 32 (0x01000000 + 4096 * (n % 25600))

theorem Allocator.answering_succeeds {answers : Nat → U32} (h : ∀ n, answers n ≠ 0) :
    (answering answers).Succeeds := fun _ n => h n

theorem Allocator.ample_succeeds : ample.Succeeds := by
  refine answering_succeeds fun n h => ?_
  have h0 := congrArg BitVec.toNat h
  rw [BitVec.toNat_ofNat, Nat.mod_eq_of_lt (by omega)] at h0
  simp at h0

theorem Allocator.Succeeds.kzallocWritten {H : Type} {alloc : Allocator H} (hs : alloc.Succeeds)
    (size : U32) (h : H) :
    ∃ ptr h', ptr ≠ 0 ∧ alloc.kzallocWritten size h = .ok (ptr, h') := by
  refine ⟨(alloc.kzalloc size h).1, (alloc.kzalloc size h).2, hs size h, ?_⟩
  unfold Allocator.kzallocWritten
  rw [Exec.bind_ok (s := h) rfl, if_neg (hs size h)]
  rfl

/-- A pointer to an `α` that its holder owns. -/
inductive Ref (α : Type) where
  | null
  | dangling (addr : U32)
  | live (addr : U32) (value : α)
  deriving DecidableEq, Repr

namespace Ref
variable {α : Type}

/-- The pointer itself. -/
def addr : Ref α → U32
  | null => 0
  | dangling addr => addr
  | live addr _ => addr

/-- The test `p == 0`. -/
def isNull : Ref α → Bool
  | null => true
  | _ => false

/-- What a read through the pointer gives. -/
def load : Ref α → Except Fault α
  | null => .error .nullDeref
  | dangling _ => .error .useAfterFree
  | live _ value => .ok value

@[simp] theorem load_eq_ok {p : Ref α} {v : α} : p.load = .ok v ↔ ∃ a, p = live a v := by
  cases p <;> simp [load]

end Ref

end KernelNES.Memory
