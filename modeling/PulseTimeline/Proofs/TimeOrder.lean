/-
  The order of instants and the order of numbers.

  1. **Fields** — the sign, the exponent field and the fraction of a double, as arithmetic unpacks
     them.

  2. **Numbers** — a pattern that is no NaN stands for a number, with a sign and a magnitude
     (`datum`): infinity, zero, a subnormal or a normal double.  Arithmetic reads it so
     (`unpack_eq_datum`).

  3. **Round trip** — arithmetic writes a number as it has read it (`pack_unpack`), and a double is
     read back from its bits (`ofBits_toBits`).

  4. **Comparison** — positive numbers compare as their magnitudes do (`compare_positive`), negative
     ones the other way round (`compare_negative`), and of two numbers with different signs the
     negative one is below the other, unless both are zero (`compare_mixed`).

  5. **Stamps** — the instant of a number of ticks is the double of that number times the tick
     (`Seconds.holds_ofTicks`).

  6. **Ordinary patterns** — a pattern that is no NaN and whose sign bit is not set.  The place of
     ordinary instants in the total order is their place as numbers (`Seconds.toFloat_lt_toFloat`).
-/
import PulseTimeline.Time

namespace PulseTimeline

namespace Binary64

open Float.Model (UnpackedFloat)
open Float.Model.UnpackedFloat

/-- The format of a double. -/
abbrev double : Float.Model.Format := Float.Model.Format.binary64

/-! ## Fields -/

/-- The exponent field. -/
def field (bits : UInt64) : Nat := unsigned bits / exponentWeight

/-- The bits of fraction below the exponent field. -/
def fraction (bits : UInt64) : Nat := unsigned bits % exponentWeight

/-- The sign of a pattern. -/
def sign (bits : UInt64) : Sign := if isNegative bits then .negative else .positive

theorem fraction_lt (bits : UInt64) : fraction bits < exponentWeight :=
  Nat.mod_lt _ (by decide)

section Fields

variable (bits : UInt64)

/-- The sign bit is set in the negative patterns. -/
theorem toNat_unpackSign :
    (@unpackSign double bits.toBitVec).toNat = if isNegative bits then 1 else 0 := by
  have hlt := bits.toNat_lt
  unfold unpackSign
  rw [BitVec.toNat_cast, BitVec.extractLsb_toNat, Nat.shiftRight_eq_div_pow]
  show bits.toNat / 0x8000000000000000 % 2 = _
  unfold isNegative signWeight
  split <;> rename_i h <;> rw [decide_eq_true_eq] at h <;> omega

theorem toNat_unpackExponent : (@unpackExponent double bits.toBitVec).toNat = field bits := by
  unfold unpackExponent
  rw [BitVec.toNat_cast, BitVec.extractLsb_toNat, Nat.shiftRight_eq_div_pow]
  show bits.toNat / 0x10000000000000 % 0x800 = _
  unfold field unsigned signWeight exponentWeight
  omega

theorem toNat_unpackMantissa : (@unpackMantissa double bits.toBitVec).toNat = fraction bits := by
  unfold unpackMantissa
  rw [BitVec.toNat_cast, BitVec.extractLsb_toNat, Nat.shiftRight_zero]
  show bits.toNat % 0x10000000000000 = _
  unfold fraction unsigned signWeight exponentWeight
  omega

/-- Packing puts the sign, the exponent field and the fraction at their places. -/
theorem toNat_packComponents (s : Sign) (e : BitVec 11) (m : BitVec 52) :
    (packComponents double s e m).toNat =
      s.toBitVec.toNat * signWeight + e.toNat * exponentWeight + m.toNat := by
  unfold packComponents
  rw [BitVec.toNat_append, BitVec.toNat_append, ← Nat.shiftLeft_add_eq_or_of_lt m.isLt,
    ← Nat.shiftLeft_add_eq_or_of_lt e.isLt, Nat.shiftLeft_eq, Nat.shiftLeft_eq]
  unfold signWeight exponentWeight
  omega

/-- Arithmetic reads the sign of a pattern. -/
theorem ofBitVec_unpackSign : Sign.ofBitVec (@unpackSign double bits.toBitVec) = sign bits := by
  have hbit := toNat_unpackSign bits
  unfold sign
  cases hsign : isNegative bits with
  | true =>
      have hone : @unpackSign double bits.toBitVec = 1#1 :=
        BitVec.eq_of_toNat_eq (hbit.trans (if_pos hsign))
      rw [hone]
      rfl
  | false =>
      have hzero : @unpackSign double bits.toBitVec = 0#1 :=
        BitVec.eq_of_toNat_eq (hbit.trans (if_neg (ne_true_of_eq_false hsign)))
      rw [hzero]
      rfl

theorem unsigned_eq : unsigned bits = field bits * exponentWeight + fraction bits :=
  (Nat.div_add_mod' _ _).symm

theorem toNat_eq : bits.toNat = (sign bits).toBitVec.toNat * signWeight + unsigned bits := by
  have hlt := bits.toNat_lt
  unfold sign isNegative unsigned signWeight
  split <;> rename_i h <;> rw [decide_eq_true_eq] at h
  · show _ = 1 * _ + _
    omega
  · show _ = 0 * _ + _
    omega

end Fields

variable {bits : UInt64}

theorem unpackExponent_eq_iff {n : Nat} (hn : n < 0x800) :
    @unpackExponent double bits.toBitVec = BitVec.ofNat 11 n ↔ field bits = n := by
  rw [← BitVec.toNat_inj, toNat_unpackExponent, BitVec.toNat_ofNat]
  show field bits = n % 0x800 ↔ _
  rw [Nat.mod_eq_of_lt hn]

theorem unpackMantissa_eq_zero_iff :
    @unpackMantissa double bits.toBitVec = 0#52 ↔ fraction bits = 0 := by
  rw [← BitVec.toNat_inj, toNat_unpackMantissa]
  rfl

/-- The leading bit of a normal double is not among its bits. -/
theorem toNat_append_implicit (m : BitVec 52) : (1#1 ++ m).toNat = exponentWeight + m.toNat := by
  rw [BitVec.toNat_append, ← Nat.shiftLeft_add_eq_or_of_lt m.isLt]
  rfl

/-! ## Numbers -/

/-- A pattern is a number if its magnitude does not exceed that of infinity. -/
theorem number_iff : isNaN bits = false ↔ unsigned bits ≤ infinity := by
  unfold isNaN
  rw [decide_eq_false_iff_not, Nat.not_lt]

/-- The fields of a NaN: the exponent field is full, and the fraction is the payload. -/
theorem nan_iff {bits : UInt64} :
    isNaN bits = true ↔ field bits = 0x7ff ∧ 0 < fraction bits := by
  have hlt := fraction_lt bits
  have hfield : unsigned bits < signWeight := Nat.mod_lt _ (by decide)
  unfold isNaN
  rw [decide_eq_true_eq]
  rw [unsigned_eq] at hfield ⊢
  unfold infinity exponentWeight signWeight at *
  omega

/-- The number with this sign whose magnitude has these bits. -/
def datum (s : Sign) (m : Nat) : UnpackedFloat :=
  if m / exponentWeight = 0x7ff then .infinity s
  else if m / exponentWeight = 0 then
    if hpos : 0 < m % exponentWeight then .finite s (m % exponentWeight) (-1074) hpos else .zero s
  else .finite s (exponentWeight + m % exponentWeight) ((m / exponentWeight : Nat) - 1075)
    (Nat.add_pos_left (by decide) _)

section Datum

variable (s : Sign) {m n : Nat}

theorem datum_infinity : datum s infinity = .infinity s := rfl

theorem datum_zero : datum s 0 = .zero s := rfl

/-- Below the smallest normal double the fraction is the significand. -/
theorem datum_subnormal (hpos : 0 < m) (hlt : m < exponentWeight) :
    datum s m = .finite s m (-1074) hpos := by
  have hdiv : m / exponentWeight = 0 := Nat.div_eq_of_lt hlt
  have hmod : m % exponentWeight = m := Nat.mod_eq_of_lt hlt
  unfold datum
  rw [hdiv, if_neg (by decide), if_pos rfl, dif_pos (hmod.symm ▸ hpos)]
  rw [finite.injEq]
  exact ⟨rfl, hmod, rfl⟩

/-- A normal double has a leading bit in front of its fraction. -/
theorem datum_normal (hle : exponentWeight ≤ m) (hlt : m < infinity) :
    datum s m = .finite s (exponentWeight + m % exponentWeight)
      ((m / exponentWeight : Nat) - 1075) (Nat.add_pos_left (by decide) _) := by
  unfold infinity exponentWeight at *
  unfold datum exponentWeight
  rw [if_neg (by omega), if_neg (by omega)]

/-- A magnitude is that of infinity, of zero, of a subnormal, or of a normal double. -/
theorem magnitude_cases (h : m ≤ infinity) :
    m = infinity ∨ m = 0 ∨ (0 < m ∧ m < exponentWeight) ∨ (exponentWeight ≤ m ∧ m < infinity) := by
  omega

/-- Up to the sign, a number is zero, infinity or finite. -/
inductive Shape (m : Nat) : Prop
  | zero (h : m = 0) (hs : ∀ s, datum s m = .zero s)
  | infinity (h : m ≠ 0) (hs : ∀ s, datum s m = .infinity s)
  | finite (h : m ≠ 0) (k : Nat) (e : Int) (hk : 0 < k) (hs : ∀ s, datum s m = .finite s k e hk)

theorem datum_shape (h : m ≤ Binary64.infinity) : Shape m := by
  rcases magnitude_cases h with rfl | rfl | ⟨hpos, hlt⟩ | ⟨hle, hlt⟩
  · exact .infinity (by decide) datum_infinity
  · exact .zero rfl datum_zero
  · exact .finite (Nat.ne_of_gt hpos) _ _ _ fun s => datum_subnormal s hpos hlt
  · have hpos : 0 < m := Nat.lt_of_lt_of_le (by decide) hle
    exact .finite (Nat.ne_of_gt hpos) _ _ _ fun s => datum_normal s hle hlt

end Datum

theorem finite_congr (s : Sign) {m n : Nat} {e f : Int} {hm : 0 < m} {hn : 0 < n} (h : m = n)
    (h' : e = f) : UnpackedFloat.finite s m e hm = .finite s n f hn := by
  subst h h'
  rfl

/-- Arithmetic reads a pattern that is no NaN as the number with its sign and magnitude. -/
theorem unpack_eq_datum (h : isNaN bits = false) :
    unpack double bits.toBitVec = datum (sign bits) (unsigned bits) := by
  have hle := number_iff.mp h
  rw [unsigned_eq] at hle
  rw [← ofBitVec_unpackSign]
  show (if @unpackExponent double bits.toBitVec = BitVec.ofNat 11 0x7ff then _ else
    if @unpackExponent double bits.toBitVec = BitVec.ofNat 11 0 then _ else _) =
    if field bits = 0x7ff then _ else if field bits = 0 then _ else _
  by_cases htop : field bits = 0x7ff
  · have hnone : fraction bits = 0 := by
      unfold infinity exponentWeight at hle
      omega
    rw [if_pos htop, if_pos ((unpackExponent_eq_iff (by decide)).mpr htop)]
    exact if_pos (unpackMantissa_eq_zero_iff.mpr hnone)
  · rw [if_neg htop, if_neg fun he => htop ((unpackExponent_eq_iff (by decide)).mp he)]
    by_cases hzero : field bits = 0
    · rw [if_pos hzero, if_pos ((unpackExponent_eq_iff (by decide)).mpr hzero)]
      by_cases hnone : fraction bits = 0
      · have hnot : ¬ 0 < unsigned bits % exponentWeight := Nat.not_lt_of_le (Nat.le_of_eq hnone)
        rw [dif_neg hnot]
        exact dif_pos (unpackMantissa_eq_zero_iff.mpr hnone)
      · refine (dif_neg fun he => hnone (unpackMantissa_eq_zero_iff.mp he)).trans
          (Eq.trans ?_ (dif_pos (Nat.pos_of_ne_zero hnone)).symm)
        refine finite_congr _ (toNat_unpackMantissa bits) ?_
        rw [toNat_unpackExponent, hzero]
        rfl
    · rw [if_neg hzero, if_neg fun he => hzero ((unpackExponent_eq_iff (by decide)).mp he)]
      refine finite_congr _ ?_ ?_
      · rw [toNat_append_implicit, toNat_unpackMantissa]
        rfl
      · rw [toNat_unpackExponent]
        rfl

/-! ## Round trip -/

/-- A subnormal significand is packed with an empty exponent field. -/
theorem pack_subnormal (s : Sign) {m : Nat} (hm : 0 < m) (hlt : m < exponentWeight) :
    pack double (.finite s m (-1074) hm) = packComponents double s 0#11 (BitVec.ofNat 52 m) := by
  have hlog : m.log2 < 52 := (Nat.log2_lt (Nat.ne_of_gt hm)).mpr hlt
  have hfits : ¬ 0x800 ≤ ((-1074 : Int) + (1023 : Nat) + (52 : Nat)).toNat + 1 := by decide
  have hsubnormal : ¬ m.log2 + 1 = 53 := by omega
  show (if 0x800 ≤ ((-1074 : Int) + (1023 : Nat) + (52 : Nat)).toNat + 1 then
      packedInfinity double s
    else if m.log2 + 1 = 53 then _ else _) = _
  rw [if_neg hfits, if_neg hsubnormal]

/-- A normal significand is packed with its exponent field and without its leading bit. -/
theorem pack_normal (s : Sign) {f m : Nat} (hpos : 0 < f) (hf : f < 0x7ff)
    (hlt : m < exponentWeight) :
    pack double (.finite s (exponentWeight + m) (f - 1075)
      (Nat.add_pos_left (by decide) _)) =
        packComponents double s (BitVec.ofNat 11 f) (BitVec.ofNat 52 (exponentWeight + m)) := by
  have hne : exponentWeight + m ≠ 0 := Nat.ne_of_gt (Nat.add_pos_left (by decide) _)
  have hlow : 52 ≤ (exponentWeight + m).log2 := (Nat.le_log2 hne).mpr (Nat.le_add_right _ _)
  have hhigh : (exponentWeight + m).log2 < 53 := by
    refine (Nat.log2_lt hne).mpr ?_
    unfold exponentWeight at hlt ⊢
    omega
  have hbiased : ((f : Int) - 1075 + (1023 : Nat) + (52 : Nat)).toNat = f := by omega
  have hfits : ¬ 0x800 ≤ ((f : Int) - 1075 + (1023 : Nat) + (52 : Nat)).toNat + 1 := by omega
  have hnormal : (exponentWeight + m).log2 + 1 = 53 := by omega
  refine (if_neg hfits).trans ((if_pos hnormal).trans ?_)
  show packComponents double s
    (BitVec.ofNat 11 ((f : Int) - 1075 + (1023 : Nat) + (52 : Nat)).toNat) _ = _
  rw [hbiased]

/-- A number is written with its sign and its magnitude. -/
theorem toNat_pack_datum (s : Sign) {m : Nat} (h : m ≤ infinity) :
    (pack double (datum s m)).toNat = s.toBitVec.toNat * signWeight + m := by
  rcases magnitude_cases h with rfl | rfl | ⟨hpos, hlt⟩ | ⟨hle, hlt⟩
  · rw [datum_infinity]
    cases s <;> rfl
  · rw [datum_zero]
    cases s <;> rfl
  · rw [datum_subnormal s hpos hlt, pack_subnormal s hpos hlt, toNat_packComponents,
      BitVec.toNat_ofNat, BitVec.toNat_ofNat]
    show _ + 0 * exponentWeight + m % exponentWeight = _
    rw [Nat.mod_eq_of_lt hlt, Nat.zero_mul, Nat.add_zero]
  · have hfield : 0 < m / exponentWeight := Nat.div_pos hle (by decide)
    have htop : m / exponentWeight < 0x7ff := Nat.div_lt_of_lt_mul hlt
    have hrest : m % exponentWeight < exponentWeight := Nat.mod_lt _ (by decide)
    rw [datum_normal s hle hlt, pack_normal s hfield htop hrest, toNat_packComponents,
      BitVec.toNat_ofNat, BitVec.toNat_ofNat]
    show _ + m / exponentWeight % 0x800 * exponentWeight +
      (exponentWeight + m % exponentWeight) % exponentWeight = _
    rw [Nat.add_mod_left, Nat.mod_mod, Nat.mod_eq_of_lt (Nat.lt_succ_of_lt htop), Nat.add_assoc,
      Nat.div_add_mod']

/-- Arithmetic writes a number as it has read it. -/
theorem pack_unpack (h : isNaN bits = false) :
    pack double (unpack double bits.toBitVec) = bits.toBitVec := by
  apply BitVec.eq_of_toNat_eq
  rw [unpack_eq_datum h, toNat_pack_datum _ (number_iff.mp h)]
  exact (toNat_eq bits).symm

/-- Arithmetic on a double made from a pattern reads the number of that pattern. -/
theorem unpack_toModel (h : isNaN bits = false) :
    (Float.ofBits bits).toModel.unpack = datum (sign bits) (unsigned bits) := by
  rw [← unpack_eq_datum h]
  exact congrArg (unpack double) (pack_unpack h)

/-- Arithmetic has a single NaN. -/
theorem toBits_of_isNaN {x : Float} (h : isNaN x.toBits = true) :
    x.toBits = 0x7ff8000000000000 := by
  obtain ⟨hfield, hfraction⟩ := nan_iff.mp h
  have htop : @unpackExponent double x.toBits.toBitVec = -1#11 :=
    (unpackExponent_eq_iff (by decide)).mpr hfield
  have hsome : @unpackMantissa double x.toBits.toBitVec ≠ 0#52 := fun hzero =>
    Nat.ne_of_gt hfraction (unpackMantissa_eq_zero_iff.mp hzero)
  exact UInt64.toBitVec_inj.mp ((x.toModel.valid.eq_packedNaN htop hsome).trans (by decide))

/-- A double that is no number in arithmetic is none by its bits. -/
theorem isNaN_toBits {x : Float} (h : x.isNaN = true) : isNaN x.toBits = true := by
  cases hbits : isNaN x.toBits with
  | true => rfl
  | false =>
      have hdatum : (datum (sign x.toBits) (unsigned x.toBits)).isNaN = true := by
        rw [← unpack_eq_datum hbits]
        exact h
      cases datum_shape (number_iff.mp hbits) with
      | zero _ hs => rw [hs] at hdatum; cases hdatum
      | infinity _ hs => rw [hs] at hdatum; cases hdatum
      | finite _ k e hk hs => rw [hs] at hdatum; cases hdatum

/-- Doubles with the same bits are the same. -/
theorem eq_of_toBits {x y : Float} (h : x.toBits = y.toBits) : x = y := by
  obtain ⟨⟨_, _⟩⟩ := x
  obtain ⟨⟨_, _⟩⟩ := y
  cases h
  rfl

/-- A double is read back from its bits. -/
theorem ofBits_toBits (x : Float) : Float.ofBits x.toBits = x := by
  apply eq_of_toBits
  cases h : isNaN x.toBits with
  | true =>
      rw [toBits_of_isNaN h]
      decide +kernel
  | false => exact UInt64.toBitVec_inj.mp (pack_unpack h)

/-! ## Comparison -/

theorem compare_finite_swap (e f : Int) (m n : Nat) :
    ((compare e f).then (compare m n)).swap = (compare f e).then (compare n m) := by
  rw [Ordering.swap_then, Int.compare_swap, Nat.compare_swap]

/-- Comparing two numbers the other way round. -/
theorem compare_swap (x y : UnpackedFloat) : y.compare x = (x.compare y).map Ordering.swap := by
  cases x with
  | notANumber => cases y <;> rfl
  | infinity s => cases y with
    | notANumber => cases s <;> rfl
    | infinity t => cases s <;> cases t <;> rfl
    | zero t => cases s <;> rfl
    | finite t n f hn => cases s <;> rfl
  | zero s => cases y with
    | notANumber => rfl
    | infinity t => cases t <;> rfl
    | zero t => rfl
    | finite t n f hn => cases t <;> rfl
  | finite s m e hm => cases y with
    | notANumber => cases s <;> rfl
    | infinity t => cases s <;> cases t <;> rfl
    | zero t => cases s <;> rfl
    | finite t n f hn =>
        have hswap := compare_finite_swap e f m n
        cases s <;> cases t
        · exact congrArg (fun c => some (Ordering.swap c)) hswap.symm
        · rfl
        · rfl
        · exact congrArg some hswap.symm

/-- Finite doubles are in order if their exponents are, or else their significands. -/
theorem compare_finite {m n : Nat} {e f : Int} {hm : 0 < m} {hn : 0 < n}
    (h : e < f ∨ e = f ∧ m < n) :
    (UnpackedFloat.finite .positive m e hm).compare (.finite .positive n f hn) = some .lt := by
  show some ((compare e f).then (compare m n)) = some .lt
  rcases h with hlt | ⟨rfl, hlt⟩
  · rw [Int.compare_eq_lt.mpr hlt]
    rfl
  · rw [Int.compare_eq_eq.mpr rfl, Nat.compare_eq_lt.mpr hlt]
    rfl

section Magnitudes

variable {m n : Nat}

/-- The larger of two magnitudes is the larger positive number. -/
theorem compare_of_lt (hn : n ≤ infinity) (h : m < n) :
    (datum .positive m).compare (datum .positive n) = some .lt := by
  rcases magnitude_cases hn with rfl | rfl | ⟨hpos, hlt⟩ | ⟨hle, hlt⟩
  · -- Every number is below infinity.
    rw [datum_infinity]
    rcases magnitude_cases (Nat.le_of_lt h) with rfl | rfl | ⟨hpos', hlt'⟩ | ⟨hle', hlt'⟩
    · exact absurd h (Nat.lt_irrefl _)
    · rfl
    · rw [datum_subnormal .positive hpos' hlt']
      rfl
    · rw [datum_normal .positive hle' hlt']
      rfl
  · exact absurd h (Nat.not_lt_zero m)
  · rw [datum_subnormal .positive hpos hlt]
    rcases Nat.eq_zero_or_pos m with rfl | hpos'
    · rfl
    · rw [datum_subnormal .positive hpos' (Nat.lt_trans h hlt)]
      exact compare_finite (.inr ⟨rfl, h⟩)
  · -- The least normal doubles have the exponent of the subnormals.
    rw [datum_normal .positive hle hlt]
    rcases Nat.eq_zero_or_pos m with rfl | hpos'
    · rfl
    · by_cases hlt' : m < exponentWeight
      · rw [datum_subnormal .positive hpos' hlt']
        have hfield : 0 < n / exponentWeight := Nat.div_pos hle (by decide)
        exact compare_finite (by omega)
      · rw [datum_normal .positive (Nat.le_of_not_lt hlt') (Nat.lt_trans h hlt)]
        unfold exponentWeight at *
        exact compare_finite (by omega)

/-- A number compares equal to itself. -/
theorem compare_self (s : Sign) (h : m ≤ infinity) :
    (datum s m).compare (datum s m) = some .eq := by
  cases datum_shape h with
  | zero _ hs => rw [hs]; rfl
  | infinity _ hs => rw [hs]; cases s <;> rfl
  | finite _ k e hk hs =>
      have heq : (compare e e).then (compare k k) = .eq := by
        rw [Int.compare_eq_eq.mpr rfl, Nat.compare_eq_eq.mpr rfl]
        rfl
      rw [hs]
      cases s
      · exact congrArg (fun c => some (Ordering.swap c)) heq
      · exact congrArg some heq

/-- Positive numbers compare as their magnitudes do. -/
theorem compare_positive (hm : m ≤ infinity) (hn : n ≤ infinity) :
    (datum .positive m).compare (datum .positive n) = some (compare m n) := by
  rcases Nat.lt_trichotomy m n with h | rfl | h
  · rw [compare_of_lt hn h, Nat.compare_eq_lt.mpr h]
  · rw [compare_self .positive hm, Nat.compare_eq_eq.mpr rfl]
  · rw [compare_swap, compare_of_lt hm h, Nat.compare_eq_gt.mpr h]
    rfl

/-- Negative numbers compare the other way round. -/
theorem compare_negative (hm : m ≤ infinity) (hn : n ≤ infinity) :
    (datum .negative m).compare (datum .negative n) = some (compare n m) := by
  have hmirror : (datum .negative m).compare (datum .negative n) =
      ((datum .positive m).compare (datum .positive n)).map Ordering.swap := by
    obtain ⟨_, hs⟩ | ⟨_, hs⟩ | ⟨_, k, e, hk, hs⟩ := datum_shape hm <;>
      obtain ⟨_, ht⟩ | ⟨_, ht⟩ | ⟨_, l, f, hl, ht⟩ := datum_shape hn <;>
      rw [hs, hs, ht, ht] <;> rfl
  rw [hmirror, ← compare_swap, compare_positive hn hm]

/-- A negative number is below a positive one, but the two zeros are equal. -/
theorem compare_mixed (hm : m ≤ infinity) (hn : n ≤ infinity) :
    (datum .negative m).compare (datum .positive n) =
      some (if m = 0 ∧ n = 0 then .eq else .lt) := by
  by_cases hzero : m = 0 ∧ n = 0
  · rw [if_pos hzero, hzero.1, hzero.2]
    rfl
  · rw [if_neg hzero]
    obtain ⟨h, hs⟩ | ⟨_, hs⟩ | ⟨_, k, e, hk, hs⟩ := datum_shape hm <;>
      obtain ⟨h', ht⟩ | ⟨_, ht⟩ | ⟨_, l, f, hl, ht⟩ := datum_shape hn <;>
      rw [hs, ht]
    · exact absurd ⟨h, h'⟩ hzero
    all_goals rfl

end Magnitudes

section Two

variable {a b : UInt64} (ha : isNaN a = false) (hb : isNaN b = false)
include ha hb

/-- Doubles are compared as the numbers of their patterns. -/
theorem lt_ofBits_iff : Float.ofBits a < Float.ofBits b ↔
    (datum (sign a) (unsigned a)).compare (datum (sign b) (unsigned b)) = some .lt := by
  show decide ((Float.ofBits a).toModel.unpack.lt (Float.ofBits b).toModel.unpack = true) = true ↔ _
  rw [decide_eq_true_eq, unpack_toModel ha, unpack_toModel hb]
  exact beq_iff_eq

theorem beq_ofBits_iff : (Float.ofBits a == Float.ofBits b) = true ↔
    (datum (sign a) (unsigned a)).compare (datum (sign b) (unsigned b)) = some .eq := by
  show (Float.ofBits a).toModel.unpack.beq (Float.ofBits b).toModel.unpack = true ↔ _
  rw [unpack_toModel ha, unpack_toModel hb]
  exact beq_iff_eq

end Two

end Binary64

/-! ## Stamps -/

namespace Seconds

/-- Whether an instant is this double; an instant that is no number is `noValue`. -/
structure Holds (t : Seconds) (x : Float) : Prop where
  value : t.toFloat = x
  noValue : x.isNaN = true → t = noValue

/-- Every NaN is the double of the instant without a value. -/
theorem toFloat_noValue {x : Float} (h : x.isNaN = true) : noValue.toFloat = x := by
  apply Binary64.eq_of_toBits
  rw [Binary64.toBits_of_isNaN (Binary64.isNaN_toBits h)]
  decide +kernel

/-- The instant of a number of ticks: the double of that number, times the tick. -/
theorem holds_ofTicks (tick : Float) (n : Int) : (ofTicks tick n).Holds (Float.ofInt n * tick) := by
  unfold ofTicks
  by_cases h : (Float.ofInt n * tick).isNaN = true
  · rw [if_pos h]
    exact ⟨toFloat_noValue h, fun _ => rfl⟩
  · rw [if_neg h]
    exact ⟨Binary64.ofBits_toBits _, fun hnan => absurd hnan h⟩

end Seconds

namespace Binary64

variable {bits : UInt64}

/-! ## Ordinary patterns -/

/-- A pattern that is no NaN and whose sign bit is not set. -/
structure Ordinary (bits : UInt64) : Prop where
  positive : isNegative bits = false
  number : isNaN bits = false

/-- The ordinary patterns are those from zero to infinity. -/
theorem ordinary_iff : Ordinary bits ↔ bits.toNat ≤ infinity := by
  have hlt := bits.toNat_lt
  constructor
  · rintro ⟨hsign, hnan⟩
    unfold isNegative at hsign
    unfold isNaN unsigned at hnan
    rw [decide_eq_false_iff_not] at hsign hnan
    unfold signWeight at hsign hnan
    omega
  · intro h
    have hbound : bits.toNat < signWeight := Nat.lt_of_le_of_lt h (by decide)
    refine ⟨decide_eq_false (by omega), decide_eq_false ?_⟩
    unfold unsigned
    rw [Nat.mod_eq_of_lt hbound]
    omega

instance (bits : UInt64) : Decidable (Ordinary bits) := decidable_of_iff _ ordinary_iff.symm

theorem Ordinary.sign_eq (h : Ordinary bits) : sign bits = .positive :=
  if_neg (ne_true_of_eq_false h.positive)

theorem Ordinary.unsigned_eq (h : Ordinary bits) : unsigned bits = bits.toNat :=
  Nat.mod_eq_of_lt (Nat.lt_of_le_of_lt (ordinary_iff.mp h) (by decide))

/-- The larger of two ordinary patterns is the larger number. -/
theorem ofBits_lt_ofBits {a b : UInt64} (ha : Ordinary a) (hb : Ordinary b)
    (h : a.toNat < b.toNat) : Float.ofBits a < Float.ofBits b := by
  rw [lt_ofBits_iff ha.number hb.number, ha.sign_eq, hb.sign_eq, ha.unsigned_eq, hb.unsigned_eq,
    compare_of_lt (ordinary_iff.mp hb) h]

/-- A pattern that is a number makes a double that is a number. -/
theorem isNaN_ofBits (h : isNaN bits = false) : (Float.ofBits bits).isNaN = false := by
  show (Float.ofBits bits).toModel.unpack.isNaN = false
  rw [unpack_toModel h]
  cases datum_shape (number_iff.mp h) with
  | zero _ hs => rw [hs]; rfl
  | infinity _ hs => rw [hs]; rfl
  | finite _ k e hk hs => rw [hs]; rfl

end Binary64

namespace Seconds

/-- An instant that is not negative, no minus zero and no NaN. -/
def Ordinary (t : Seconds) : Prop := Binary64.Ordinary t.bits

instance (t : Seconds) : Decidable t.Ordinary := inferInstanceAs (Decidable (Binary64.Ordinary _))

theorem Ordinary.key_eq {t : Seconds} (h : t.Ordinary) : t.key = t.bits.toNat := by
  unfold key Binary64.orderKey
  rw [h.positive, if_neg (by decide), h.unsigned_eq]

/-- Ordinary instants are ordered as numbers. -/
theorem toFloat_lt_toFloat {a b : Seconds} (ha : a.Ordinary) (hb : b.Ordinary)
    (h : a.key < b.key) : a.toFloat < b.toFloat := by
  rw [ha.key_eq, hb.key_eq, Int.ofNat_lt] at h
  exact Binary64.ofBits_lt_ofBits ha hb h

theorem Ordinary.isNaN_toFloat {t : Seconds} (h : t.Ordinary) : t.toFloat.isNaN = false :=
  Binary64.isNaN_ofBits h.number

/-- The start of a timeline. -/
def zero : Seconds := ⟨0⟩

theorem ordinary_zero : zero.Ordinary := by decide

theorem toFloat_zero : zero.toFloat = 0.0 := by decide +kernel

theorem Ordinary.key_zero_le {t : Seconds} (h : t.Ordinary) : zero.key ≤ t.key := by
  rw [h.key_eq, ordinary_zero.key_eq]
  exact Int.natCast_nonneg _

end Seconds

end PulseTimeline
