import ManagedMachine.Engine.Arithmetic
import Mathlib

/-!
# Integer arithmetic

What the operations on integer slots compute is the exact result on integers, wrapped to the width
of the result (`Integer.arithmetic_exact`). That width is the wider one of the two operands, but
shifts keep the width of what they shift.

The values of two operands are brought to the wider width by sign extension (`toInt_extended`),
which no operation notices, and the machine operation at that width is the operation on integers
wrapped once (`onInts_eq`). Division and shifts are looked at apart: a quotient may leave the range
at one place only, and a shift takes its count modulo the width.
-/

set_option autoImplicit false
set_option relaxedAutoImplicit false

namespace ManagedMachine

/-- An integer as it stands in a slot. -/
inductive Integer where
  | int32 (v : Int32)
  | int64 (v : Int64)

namespace Integer

/-- The operand that holds the number. -/
def slot : Integer → Slot
  | int32 v => .int32 v
  | int64 v => .int64 v

/-- The number itself. -/
def value : Integer → Int
  | int32 v => v.toInt
  | int64 v => v.toInt

/-- Whether the number has 64 bits. -/
def isWide : Integer → Bool
  | int32 _ => false
  | int64 _ => true

/-- The number of bits of a width. -/
def bits (wide : Bool) : Nat := if wide then 64 else 32

/-- The integer of a width that is congruent to `n` modulo two to the number of its bits. -/
def wrap (wide : Bool) (n : Int) : Integer := if wide then .int64 (.ofInt n) else .int32 (.ofInt n)

/-- The least integer of a width. -/
def least (wide : Bool) : Integer := wrap wide (-2 ^ (bits wide - 1))

end Integer

namespace BinaryOp

/-- What an operation is to give on integers. Divisions go toward zero, the bitwise operations work
on two's complements, and shifts multiply by a power of two or divide by it, rounding down. -/
def exact (op : BinaryOp) (bits : Nat) (x y : Int) : Int :=
  match op with
  | add => x + y
  | sub => x - y
  | mul => x * y
  | div => x.tdiv y
  | rem => x.tmod y
  | and => (BitVec.ofInt bits x &&& BitVec.ofInt bits y).toInt
  | or => (BitVec.ofInt bits x ||| BitVec.ofInt bits y).toInt
  | xor => (BitVec.ofInt bits x ^^^ BitVec.ofInt bits y).toInt
  | shl => x * 2 ^ (y % bits).toNat
  | shr => x / 2 ^ (y % bits).toNat

/-- Whether the operation refuses a zero on the right. -/
def divides : BinaryOp → Bool
  | div | rem => true
  | _ => false

/-- Whether the operand on the right is a count of bits. -/
def shifts : BinaryOp → Bool
  | shl | shr => true
  | _ => false

/-- Is the result a wide integer? -/
def widens (op : BinaryOp) (x y : Bool) : Bool := if op.shifts then x else x || y

end BinaryOp

/-- What a comparison says of two integers. -/
def Comparison.Relates : Comparison → Int → Int → Prop
  | .eq, x, y => x = y
  | .ne, x, y => x ≠ y
  | .lt, x, y => x < y
  | .le, x, y => x ≤ y
  | .gt, x, y => x > y
  | .ge, x, y => x ≥ y

/-! ### Words as integers -/

namespace Integer

/-- Shifting left is multiplying by a power of two, wrapped. -/
theorem ofInt_shiftLeft {w : Nat} (x : BitVec w) (n : Nat) :
    BitVec.ofInt w (x.toInt * 2 ^ n) = x <<< n := by
  have hpow : BitVec.ofInt w (2 ^ n) = BitVec.twoPow w n := by
    rw [show (2 ^ n : Int) = ((2 ^ n : Nat) : Int) by push_cast; rfl, BitVec.ofInt_natCast]
    apply BitVec.eq_of_toNat_eq
    rw [BitVec.toNat_ofNat, BitVec.toNat_twoPow]
  rw [BitVec.ofInt_mul, BitVec.ofInt_toInt, hpow, BitVec.shiftLeft_eq_mul_twoPow]

/-- Shifting right, with the sign, is dividing by a power of two and rounding down. -/
theorem ofInt_shiftRight {w : Nat} (x : BitVec w) (n : Nat) :
    BitVec.ofInt w (x.toInt / 2 ^ n) = x.sshiftRight n := by
  have hshift : (x.sshiftRight n).toInt = x.toInt / 2 ^ n := by
    rw [BitVec.toInt_sshiftRight, Int.shiftRight_eq_div_pow]
    push_cast
    rfl
  rw [← hshift, BitVec.ofInt_toInt]

/-- A count is taken modulo the width, and is then not negative. -/
theorem toNat_smod {w : Nat} {y m : BitVec w} {n : Nat} (hm : m.toInt = n) (hn : 0 < n) :
    (y.smod m).toNat = (y.toInt % n).toNat := by
  have hcount : (y.smod m).toInt = y.toInt % n := by
    rw [BitVec.toInt_smod, hm, Int.fmod_eq_emod_of_nonneg _ (Int.natCast_nonneg n)]
  have hnonneg : 0 ≤ (y.smod m).toInt := by
    rw [hcount]
    exact Int.emod_nonneg _ (by omega)
  rw [← hcount, BitVec.toInt_eq_toNat_of_msb, Int.toNat_natCast]
  rw [BitVec.msb_eq_toInt, decide_eq_false_iff_not]
  exact Int.not_lt.mpr hnonneg

theorem wide_shiftLeft (x y : Int64) :
    x <<< y = .ofInt (x.toInt * 2 ^ (y.toInt % 64).toNat) := by
  apply Int64.toBitVec_inj.mp
  rw [Int64.toBitVec_shiftLeft, Int64.toBitVec_ofInt, BitVec.shiftLeft_eq',
    toNat_smod (n := 64) rfl (by decide)]
  exact (ofInt_shiftLeft _ _).symm

theorem narrow_shiftLeft (x y : Int32) :
    x <<< y = .ofInt (x.toInt * 2 ^ (y.toInt % 32).toNat) := by
  apply Int32.toBitVec_inj.mp
  rw [Int32.toBitVec_shiftLeft, Int32.toBitVec_ofInt, BitVec.shiftLeft_eq',
    toNat_smod (n := 32) rfl (by decide)]
  exact (ofInt_shiftLeft _ _).symm

theorem wide_shiftRight (x y : Int64) :
    x >>> y = .ofInt (x.toInt / 2 ^ (y.toInt % 64).toNat) := by
  apply Int64.toBitVec_inj.mp
  rw [Int64.toBitVec_shiftRight, Int64.toBitVec_ofInt, BitVec.sshiftRight_eq',
    toNat_smod (n := 64) rfl (by decide)]
  exact (ofInt_shiftRight _ _).symm

theorem narrow_shiftRight (x y : Int32) :
    x >>> y = .ofInt (x.toInt / 2 ^ (y.toInt % 32).toNat) := by
  apply Int32.toBitVec_inj.mp
  rw [Int32.toBitVec_shiftRight, Int32.toBitVec_ofInt, BitVec.sshiftRight_eq',
    toNat_smod (n := 32) rfl (by decide)]
  exact (ofInt_shiftRight _ _).symm

/-! ### Slots as integers -/

/-- The integer with its sign extended to the wide width. -/
def extended : Integer → Int64
  | int32 v => v.toInt64
  | int64 v => v

/-- Extending a number does not change it. -/
@[simp] theorem toInt_extended (a : Integer) : a.extended.toInt = a.value := by
  cases a with
  | int32 v => exact Int32.toInt_toInt64 v
  | int64 v => rfl

/-- Nothing is lost when a narrow integer is cut down again. -/
theorem toInt_toInt32_extended {a : Integer} (h : a.isWide = false) :
    a.extended.toInt32.toInt = a.value := by
  cases a with
  | int32 v => exact congrArg Int32.toInt (Int32.toInt32_toInt64 v)
  | int64 v => cases h

theorem ofSlot_slot (a : Integer) : Number.ofSlot a.slot = .ok (.int a.extended a.isWide) := by
  cases a <;> rfl

theorem ofInt_eq (v : Int64) (wide : Bool) : Slot.ofInt v wide = (wrap wide v.toInt).slot := by
  cases wide
  · exact congrArg Slot.int32 (Int32.ofInt_int64ToInt v).symm
  · exact congrArg Slot.int64 (Int64.ofInt_toInt v).symm

/-- What was wrapped to the wide width before can be wrapped all the same. -/
theorem wrap_bmod (wide : Bool) (n : Int) : wrap wide (n.bmod (2 ^ 64)) = wrap wide n := by
  cases wide
  · refine congrArg Integer.int32 (Int32.toInt.inj ?_)
    rw [Int32.toInt_ofInt, Int32.toInt_ofInt]
    exact Int.bmod_bmod_of_dvd (by decide)
  · refine congrArg Integer.int64 (Int64.toInt.inj ?_)
    rw [Int64.toInt_ofInt, Int64.toInt_ofInt]
    exact Int.bmod_bmod

/-! ### The operations -/

variable (a b : Integer) (wide : Bool) (x y : Int64)

/-- Sums, differences and products are computed at the wide width. -/
theorem ofInt_of_bmod {v : Int64} {n : Int} (h : v.toInt = n.bmod (2 ^ 64)) :
    Slot.ofInt v wide = (wrap wide n).slot := by
  rw [ofInt_eq, h, wrap_bmod]

/-- A bitwise operation can be done before or after cutting down. -/
theorem ofInt_of_bitwise {v : Int64} (f : (w : Nat) → BitVec w → BitVec w → BitVec w)
    (hwide : v.toBitVec = f 64 x.toBitVec y.toBitVec)
    (hnarrow : v.toInt32.toBitVec = f 32 x.toInt32.toBitVec y.toInt32.toBitVec) :
    Slot.ofInt v wide =
      (wrap wide (f (bits wide) (.ofInt _ x.toInt) (.ofInt _ y.toInt)).toInt).slot := by
  cases wide
  · refine congrArg Slot.int32 (Int32.toBitVec_inj.mp ?_)
    rw [hnarrow, ← Int32.ofInt_int64ToInt, ← Int32.ofInt_int64ToInt]
    exact BitVec.ofInt_toInt.symm
  · refine congrArg Slot.int64 (Int64.toBitVec_inj.mp ?_)
    have hword : ∀ z : Int64, z.toBitVec = BitVec.ofInt 64 z.toInt :=
      fun _ ↦ BitVec.ofInt_toInt.symm
    rw [hwide, Int64.toBitVec_ofInt, hword x, hword y]
    exact BitVec.ofInt_toInt.symm

/-- Division at the width of the result; both operands fit into it. -/
theorem onInts_div (hb : b.value ≠ 0) :
    BinaryOp.div.onInts a.extended a.isWide b.extended b.isWide =
      some (wrap (a.isWide || b.isWide) (a.value.tdiv b.value)).slot := by
  have hne : b.extended ≠ 0 := fun h ↦ hb (by rw [← toInt_extended, h]; rfl)
  simp only [BinaryOp.onInts, if_neg hne]
  cases hwide : a.isWide || b.isWide with
  | true =>
    refine congrArg (some ∘ Slot.int64) (Int64.toInt.inj ?_)
    rw [Int64.toInt_div, Int64.toInt_ofInt, toInt_extended, toInt_extended]
  | false =>
    obtain ⟨ha, hb⟩ := Bool.or_eq_false_iff.mp hwide
    refine congrArg (some ∘ Slot.int32) (Int32.toInt.inj ?_)
    rw [Int32.toInt_div, Int32.toInt_ofInt, toInt_toInt32_extended ha, toInt_toInt32_extended hb]

/-- The remainder at the width of the result, with the sign of the dividend. -/
theorem onInts_rem (hb : b.value ≠ 0) :
    BinaryOp.rem.onInts a.extended a.isWide b.extended b.isWide =
      some (wrap (a.isWide || b.isWide) (a.value.tmod b.value)).slot := by
  have hne : b.extended ≠ 0 := fun h ↦ hb (by rw [← toInt_extended, h]; rfl)
  simp only [BinaryOp.onInts, if_neg hne]
  cases hwide : a.isWide || b.isWide with
  | true =>
    refine congrArg (some ∘ Slot.int64) ?_
    rw [← toInt_extended a, ← toInt_extended b, ← Int64.toInt_mod, Int64.ofInt_toInt]
  | false =>
    obtain ⟨ha, hb⟩ := Bool.or_eq_false_iff.mp hwide
    refine congrArg (some ∘ Slot.int32) ?_
    rw [← toInt_toInt32_extended ha, ← toInt_toInt32_extended hb, ← Int32.toInt_mod,
      Int32.ofInt_toInt]

/-- The count of a shift is the same modulo 32 at both widths. -/
theorem toInt32_emod (v : Int64) : v.toInt32.toInt % 32 = v.toInt % 32 := by
  rw [Int64.toInt_toInt32]
  have hdvd : (32 : Int) ∣ ((2 ^ 32 : Nat) : Int) := by decide
  rw [← Int.emod_emod_of_dvd _ hdvd, Int.bmod_emod, Int.emod_emod_of_dvd _ hdvd]

/-- The width of a shift is the one of the number that is shifted. -/
theorem onInts_shl : BinaryOp.shl.onInts a.extended a.isWide b.extended b.isWide =
    some (wrap a.isWide (BinaryOp.shl.exact (bits a.isWide) a.value b.value)).slot := by
  cases hwide : a.isWide with
  | true =>
    refine congrArg (some ∘ Slot.int64) ((wide_shiftLeft _ _).trans ?_)
    rw [toInt_extended, toInt_extended]
    rfl
  | false =>
    refine congrArg (some ∘ Slot.int32) ((narrow_shiftLeft _ _).trans ?_)
    rw [toInt32_emod, toInt_toInt32_extended hwide, toInt_extended]
    rfl

theorem onInts_shr : BinaryOp.shr.onInts a.extended a.isWide b.extended b.isWide =
    some (wrap a.isWide (BinaryOp.shr.exact (bits a.isWide) a.value b.value)).slot := by
  cases hwide : a.isWide with
  | true =>
    refine congrArg (some ∘ Slot.int64) ((wide_shiftRight _ _).trans ?_)
    rw [toInt_extended, toInt_extended]
    rfl
  | false =>
    refine congrArg (some ∘ Slot.int32) ((narrow_shiftRight _ _).trans ?_)
    rw [toInt32_emod, toInt_toInt32_extended hwide, toInt_extended]
    rfl

/-- Only a division by zero has no result. -/
theorem onInts_eq (op : BinaryOp) :
    op.onInts a.extended a.isWide b.extended b.isWide =
      if op.divides ∧ b.value = 0 then none
      else
        let wide := op.widens a.isWide b.isWide
        some (wrap wide (op.exact (bits wide) a.value b.value)).slot := by
  have hzero (h : b.value = 0) : b.extended = 0 :=
    Int64.toInt.inj ((toInt_extended b).trans h)
  cases op with
  | add =>
    refine congrArg some (ofInt_of_bmod _ ?_)
    rw [Int64.toInt_add, toInt_extended, toInt_extended]
    rfl
  | sub =>
    refine congrArg some (ofInt_of_bmod _ ?_)
    rw [Int64.toInt_sub, toInt_extended, toInt_extended]
    rfl
  | mul =>
    refine congrArg some (ofInt_of_bmod _ ?_)
    rw [Int64.toInt_mul, toInt_extended, toInt_extended]
    rfl
  | div =>
    by_cases hb : b.value = 0
    · simp [BinaryOp.onInts, BinaryOp.divides, hb, hzero hb]
    · rw [onInts_div a b hb, if_neg fun h ↦ hb h.2]
      rfl
  | rem =>
    by_cases hb : b.value = 0
    · simp [BinaryOp.onInts, BinaryOp.divides, hb, hzero hb]
    · rw [onInts_rem a b hb, if_neg fun h ↦ hb h.2]
      rfl
  | and =>
    rw [← toInt_extended a, ← toInt_extended b]
    refine congrArg some (ofInt_of_bitwise _ _ _ (fun _ ↦ (· &&& ·)) rfl ?_)
    rw [Int64.toInt32_and]
    rfl
  | or =>
    rw [← toInt_extended a, ← toInt_extended b]
    refine congrArg some (ofInt_of_bitwise _ _ _ (fun _ ↦ (· ||| ·)) rfl ?_)
    rw [Int64.toInt32_or]
    rfl
  | xor =>
    rw [← toInt_extended a, ← toInt_extended b]
    refine congrArg some (ofInt_of_bitwise _ _ _ (fun _ ↦ (· ^^^ ·)) rfl ?_)
    rw [Int64.toInt32_xor]
    rfl
  | shl => exact onInts_shl a b
  | shr => exact onInts_shr a b

theorem compare_toInt : compare x y = compare x.toInt y.toInt := by
  show compareOfLessAndEq x y = compareOfLessAndEq x.toInt y.toInt
  simp only [compareOfLessAndEq, Int64.lt_iff_toInt_lt, Int64.toInt_inj]

end Integer

/-- Comparing values is comparing integers, with nothing wrapped. -/
theorem Comparison.holds_compare (c : Comparison) (x y : Int) :
    c.holds (some (compare x y)) = true ↔ c.Relates x y := by
  rcases lt_trichotomy x y with h | h | h
  · have ho : compare x y = .lt := compare_lt_iff_lt.mpr h
    cases c <;> simp [holds, Relates, ho] <;> omega
  · have ho : compare x y = .eq := compare_eq_iff_eq.mpr h
    cases c <;> simp [holds, Relates, h]
  · have ho : compare x y = .gt := compare_gt_iff_gt.mpr h
    cases c <;> simp [holds, Relates, ho] <;> omega

/-- Integer arithmetic is exact up to wrapping, for all operands: an operation has a result unless
it divides by zero, and the result is what it is to give on integers, wrapped to the width of the
wider operand, or for shifts to that of the left one. Negation wraps at its own width, comparisons
compare the integers, and the least integer divided by minus one is the least integer again. -/
theorem Integer.arithmetic_exact (a b : Integer) :
    (∀ op : BinaryOp, op.apply a.slot b.slot = .ok
      (if op.divides ∧ b.value = 0 then none
      else
        let wide := op.widens a.isWide b.isWide
        some (wrap wide (op.exact (bits wide) a.value b.value)).slot)) ∧
    a.slot.negate = .ok (wrap a.isWide (-a.value)).slot ∧
    a.slot.order b.slot = .ok (some (compare a.value b.value)) ∧
    (∀ c : Comparison, c.holds (some (compare a.value b.value)) = true ↔
      c.Relates a.value b.value) ∧
    ∀ wide, BinaryOp.div.apply (least wide).slot (wrap wide (-1)).slot =
        .ok (some (least wide).slot) ∧
      BinaryOp.rem.apply (least wide).slot (wrap wide (-1)).slot =
        .ok (some (wrap wide 0).slot) := by
  refine ⟨fun op ↦ ?_, ?_, ?_, fun c ↦ c.holds_compare _ _, fun wide ↦ ?_⟩
  · rw [← onInts_eq, BinaryOp.apply, ofSlot_slot, ofSlot_slot]
    rfl
  · rw [Slot.negate, ofSlot_slot]
    refine congrArg Except.ok (ofInt_of_bmod _ ?_)
    rw [Int64.toInt_neg, toInt_extended]
  · rw [Slot.order, ofSlot_slot, ofSlot_slot]
    refine congrArg (Except.ok ∘ some) ?_
    rw [compare_toInt, toInt_extended, toInt_extended]
  · cases wide <;> exact ⟨rfl, rfl⟩

end ManagedMachine
