import Mathlib

namespace Stutter

abbrev Bytes := List UInt8

/-- A C string literal, without its terminating NUL. -/
def ascii (s : String) : Bytes := s.toList.map fun c => UInt8.ofNat c.toNat

abbrev CR : UInt8 := 13
abbrev LF : UInt8 := 10
abbrev SP : UInt8 := 32
abbrev HT : UInt8 := 9

def crlf : Bytes := [CR, LF]

/-- `LOWER(c)`: sets bit 5, which lowers letters and leaves digits alone. -/
def lower (ch : UInt8) : UInt8 := ch ||| 0x20

def isNum (ch : UInt8) : Bool := '0'.toUInt8 ≤ ch && ch ≤ '9'.toUInt8

def isAlpha (ch : UInt8) : Bool := 'a'.toUInt8 ≤ lower ch && lower ch ≤ 'z'.toUInt8

/-- The value of a decimal digit, `ch - '0'`. -/
def digit (ch : UInt8) : ℕ := ch.toNat - 48

def isBlank (ch : UInt8) : Bool := ch = SP || ch = HT

/-- `tolower(3)` in the C locale. -/
def toLower (ch : UInt8) : UInt8 :=
  if 'A'.toUInt8 ≤ ch ∧ ch ≤ 'Z'.toUInt8 then ch + 32 else ch

/-- What `strcasecmp` compares: the bytes before the first NUL, letters lowered. -/
def nocase (s : Bytes) : List ℕ := (s.takeWhile (· ≠ 0)).map fun ch => (toLower ch).toNat

def INT_MAX : ℤ := 2 ^ 31 - 1

/-- A 64-bit `size_t` or `ssize_t` stored in an `int`. -/
def toInt32 (n : ℤ) : ℤ := n.bmod (2 ^ 32)

theorem toInt32_of_le {n : ℤ} (h : -INT_MAX - 1 ≤ n) (h' : n ≤ INT_MAX) : toInt32 n = n := by
  rw [INT_MAX] at h h'
  rw [toInt32, Int.bmod_def]
  omega

/-- A count that does not fit comes out smaller. -/
theorem toInt32_lt {n : ℤ} (h : INT_MAX < n) : toInt32 n < n := by
  rw [INT_MAX] at h
  rw [toInt32, Int.bmod_def]
  omega

end Stutter
