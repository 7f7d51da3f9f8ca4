import Stutter.Bytes

namespace Stutter

/-- The number that decimal digits spell, behind the digits of `v`. -/
def numeralFrom (v : ℕ) (ds : Bytes) : ℕ := ds.foldl (fun v c => v * 10 + digit c) v

def numeral (ds : Bytes) : ℕ := numeralFrom 0 ds

theorem le_numeralFrom (v : ℕ) (ds : Bytes) : v ≤ numeralFrom v ds := by
  induction ds generalizing v with
  | nil => exact le_rfl
  | cons c ds ih => exact le_trans (by omega) (ih (v * 10 + digit c))

def digitByte (d : ℕ) : UInt8 := UInt8.ofNat (48 + d)

/-- The decimal numeral of `n`, as `operator<<` writes it. -/
def decimal (n : ℕ) : Bytes :=
  if n = 0 then ['0'.toUInt8] else (Nat.digits 10 n).reverse.map digitByte

def decimalInt (i : ℤ) : Bytes :=
  if i < 0 then '-'.toUInt8 :: decimal i.natAbs else decimal i.natAbs

theorem toNat_digitByte {d : ℕ} (h : d < 10) : (digitByte d).toNat = 48 + d := by
  rw [digitByte, UInt8.toNat_ofNat']
  omega

theorem isNum_iff {c : UInt8} : isNum c = true ↔ 48 ≤ c.toNat ∧ c.toNat ≤ 57 := by
  simp only [isNum, Bool.and_eq_true, decide_eq_true_eq, UInt8.le_iff_toNat_le]
  exact Iff.rfl

theorem isNum_digitByte {d : ℕ} (h : d < 10) : isNum (digitByte d) = true := by
  rw [isNum_iff, toNat_digitByte h]
  omega

theorem digit_digitByte {d : ℕ} (h : d < 10) : digit (digitByte d) = d := by
  rw [digit, toNat_digitByte h]
  omega

theorem decimal_ne (n : ℕ) : decimal n ≠ [] := by
  rw [decimal]
  split_ifs with h
  · exact List.cons_ne_nil _ _
  · simpa using Nat.digits_ne_nil_iff_ne_zero.mpr h

theorem isNum_decimal (n : ℕ) : ∀ c ∈ decimal n, isNum c = true := by
  intro c hc
  rw [decimal] at hc
  split_ifs at hc with h
  · obtain rfl := List.mem_singleton.mp hc
    decide
  · obtain ⟨d, hd, rfl⟩ := List.mem_map.mp hc
    exact isNum_digitByte (Nat.digits_lt_base (by decide) (List.mem_reverse.mp hd))

theorem numeral_digits (ds : List ℕ) (h : ∀ d ∈ ds, d < 10) :
    numeral (ds.reverse.map digitByte) = Nat.ofDigits 10 ds := by
  induction ds with
  | nil => rfl
  | cons d ds ih =>
    have ih' := ih fun d hd => h d (List.mem_cons_of_mem _ hd)
    rw [numeral, numeralFrom] at ih' ⊢
    rw [List.reverse_cons, List.map_append, List.foldl_append, ih', Nat.ofDigits_cons]
    simp only [List.map_cons, List.map_nil, List.foldl_cons, List.foldl_nil,
      digit_digitByte (h d List.mem_cons_self)]
    ring

theorem numeral_decimal (n : ℕ) : numeral (decimal n) = n := by
  rw [decimal]
  split_ifs with h
  · rw [h]
    decide
  · rw [numeral_digits _ fun d hd => Nat.digits_lt_base (by decide) hd, Nat.ofDigits_digits]

theorem decimalInt_natCast (n : ℕ) : decimalInt n = decimal n := by
  rw [decimalInt, if_neg (by omega), Int.natAbs_natCast]

def LONG_MAX : ℤ := 2 ^ 63 - 1

def isSpace (ch : UInt8) : Bool := ch = SP || (9 ≤ ch && ch ≤ 13)

/-- `atol(3)`: white space, a sign and digits, the rest left unread; out of range it is the bound
that `strtol(3)` gives. -/
def atol (s : Bytes) : ℤ :=
  match s.dropWhile isSpace with
  | [] => 0
  | ch :: rest =>
    if ch = '-'.toUInt8 then max (-LONG_MAX - 1) (-(numeral (rest.takeWhile isNum) : ℤ))
    else if ch = '+'.toUInt8 then min LONG_MAX (numeral (rest.takeWhile isNum))
    else min LONG_MAX (numeral ((ch :: rest).takeWhile isNum))

/-- `atol` reads a numeral back, up to `LONG_MAX`. -/
theorem atol_numeral {s : Bytes} (hne : s ≠ []) (h : ∀ c ∈ s, isNum c = true) :
    atol s = min LONG_MAX (numeral s) := by
  rcases s with _ | ⟨ch, rest⟩
  · exact absurd rfl hne
  have hch := isNum_iff.mp (h ch List.mem_cons_self)
  have hsp : isSpace ch = false := by
    simp only [isSpace, Bool.or_eq_false_iff, decide_eq_false_iff_not, Bool.and_eq_false_iff,
      UInt8.le_iff_toNat_le, ← UInt8.toNat_inj]
    refine ⟨?_, .inr ?_⟩
    · change ¬ ch.toNat = 32
      omega
    · change ¬ ch.toNat ≤ 13
      omega
  have hm : ch ≠ '-'.toUInt8 := by
    rintro rfl
    exact absurd hch (by decide)
  have hp : ch ≠ '+'.toUInt8 := by
    rintro rfl
    exact absurd hch (by decide)
  rw [atol, List.dropWhile_cons_of_neg (by rw [hsp]; decide)]
  simp only [if_neg hm, if_neg hp]
  rw [List.takeWhile_eq_self_iff.mpr h]

end Stutter
