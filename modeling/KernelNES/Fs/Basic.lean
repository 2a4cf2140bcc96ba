import KernelNES.Lib.CInt

/-!
# Fs — Basic

What the filesystem uses of `src/status.h` and `src/string/string.c`.  A C string is the list of its
characters; reading it past its end gives the terminator.
-/

namespace KernelNES.Fs
open KernelNES.Lib

/-! ### Status codes

`-EIO` is `-eio`, and so on. -/

/-- `EIO`. -/
def eio : Int := 1

/-- `EINVARG`. -/
def einvarg : Int := 2

/-- `ENOMEM`. -/
def enomem : Int := 3

/-- `EBADPATH`. -/
def ebadpath : Int := 4

/-- `EFSNOTUS`. -/
def efsnotus : Int := 5

/-- `ERDONLY`. -/
def erdonly : Int := 6

/-- `EUNIMP`. -/
def eunimp : Int := 7

/-! ### Strings -/

/-- A C string, without its terminator. -/
abbrev Name := List U8

/-- `PEACHOS_MAX_PATH`. -/
def peachosMaxPath : Nat := 108

/-- `strnlen`. -/
def strnlen (ptr : Name) (max : Nat) : Nat := min ptr.length max

/-- `tolower`; a `char` is signed. -/
def tolower (s1 : U8) : U8 := if 65 ≤ s1.toInt ∧ s1.toInt ≤ 90 then s1 + 32 else s1

/-- `strncmp`. -/
def strncmp : (str1 str2 : Name) → (n : Nat) → Int
  | _, _, 0 => 0
  | str1, str2, n + 1 =>
    let u1 := str1.headD 0
    let u2 := str2.headD 0
    if u1 ≠ u2 then u1.toNat - u2.toNat
    else if u1 = 0 then 0
    else strncmp str1.tail str2.tail n

/-- `istrncmp`. -/
def istrncmp : (s1 s2 : Name) → (n : Nat) → Int
  | _, _, 0 => 0
  | s1, s2, n + 1 =>
    let u1 := s1.headD 0
    let u2 := s2.headD 0
    if u1 ≠ u2 ∧ tolower u1 ≠ tolower u2 then u1.toNat - u2.toNat
    else if u1 = 0 then 0
    else istrncmp s1.tail s2.tail n

/-- `isdigit`. -/
def isdigit (c : U8) : Bool := 48 ≤ c.toInt ∧ c.toInt ≤ 57

/-- `tonumericdigit`. -/
def tonumericdigit (c : U8) : Int := c.toInt - 48

end KernelNES.Fs
