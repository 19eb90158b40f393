import Mathlib

/-!
# Fixed-width fields of machine words

Division by a scaled reciprocal, bit fields of one word, and arrays of equally
wide entries packed into words from the low bits up, an entry never crossing a
word boundary.
-/

namespace Rukkit.Lib.Words

/-! ## Division by a scaled reciprocal -/

/-- Multiplying by a rounded-up reciprocal `magic ≈ scale / d` and dropping the
scale is an exact division as long as the accumulated rounding error `n * e`
stays below the scale. -/
theorem mul_reciprocal_div {n d magic scale e : Nat} (hd : 0 < d)
    (hmagic : magic * d = scale + e) (herr : n * e < scale) :
    n * magic / scale = n / d := by
  have hscaled : n * magic * d = n * scale + n * e := by
    rw [Nat.mul_assoc, hmagic, Nat.mul_add]
  have hlow : n / d * scale ≤ n * magic := by
    apply Nat.le_of_mul_le_mul_right _ hd
    calc
      n / d * scale * d = n / d * d * scale := by ring
      _ ≤ n * scale := Nat.mul_le_mul_right scale (Nat.div_mul_le_self n d)
      _ ≤ n * magic * d := by omega
  have hhigh : n * magic < (n / d + 1) * scale := by
    apply Nat.lt_of_mul_lt_mul_right (a := d)
    have hn : n + 1 ≤ (n / d + 1) * d := by
      have := Nat.lt_div_mul_add hd (a := n)
      rw [Nat.add_mul]
      omega
    calc
      n * magic * d < (n + 1) * scale := by rw [hscaled, Nat.add_mul]; omega
      _ ≤ (n / d + 1) * d * scale := Nat.mul_le_mul_right scale hn
      _ = (n / d + 1) * scale * d := by ring
  exact Nat.div_eq_of_lt_le hlow hhigh

/-! ## Fields of one word -/

variable {w : Nat}

/-- The `bits` low ones of a `w`-bit word. -/
def mask (w bits : Nat) : BitVec w := (1#w <<< bits) - 1#w

/-- The `bits`-wide field of `word` that starts at bit `offset`. -/
def field (word : BitVec w) (offset bits : Nat) : BitVec w :=
  (word >>> offset) &&& mask w bits

/-- Overwrite the `bits`-wide field of `word` at bit `offset`. -/
def setField (word : BitVec w) (offset bits : Nat) (value : BitVec w) : BitVec w :=
  (word &&& ~~~(mask w bits <<< offset)) ||| (value <<< offset)

theorem toNat_mask {bits : Nat} (h : bits < w) : (mask w bits).toNat = 2 ^ bits - 1 := by
  have hpow : 2 ^ bits < 2 ^ w := Nat.pow_lt_pow_right (by omega) h
  have hpos : 0 < 2 ^ bits := Nat.two_pow_pos bits
  have hone : 1 < 2 ^ w := Nat.one_lt_two_pow (by omega)
  rw [mask, BitVec.toNat_sub, BitVec.toNat_shiftLeft, BitVec.toNat_ofNat,
    Nat.mod_eq_of_lt hone, Nat.shiftLeft_eq, Nat.one_mul, Nat.mod_eq_of_lt hpow,
    show 2 ^ w - 1 + 2 ^ bits = 2 ^ bits - 1 + 2 ^ w by omega, Nat.add_mod_right,
    Nat.mod_eq_of_lt (by omega)]

theorem le_mask_iff {bits : Nat} (h : bits < w) (value : BitVec w) :
    value ≤ mask w bits ↔ value.toNat < 2 ^ bits := by
  rw [BitVec.le_def, toNat_mask h]
  have := Nat.two_pow_pos bits
  omega

theorem getLsbD_mask {bits : Nat} (h : bits < w) (i : Nat) :
    (mask w bits).getLsbD i = decide (i < bits) := by
  rw [BitVec.getLsbD, toNat_mask h, Nat.testBit_two_pow_sub_one]

theorem getLsbD_of_toNat_lt {value : BitVec w} {bits i : Nat}
    (hvalue : value.toNat < 2 ^ bits) (hi : bits ≤ i) : value.getLsbD i = false := by
  apply Nat.testBit_lt_two_pow
  exact hvalue.trans_le (Nat.pow_le_pow_right (by omega) hi)

theorem getLsbD_field {bits : Nat} (h : bits < w) (word : BitVec w) (offset i : Nat) :
    (field word offset bits).getLsbD i =
      (decide (i < bits) && word.getLsbD (offset + i)) := by
  rw [field, BitVec.getLsbD_and, BitVec.getLsbD_ushiftRight, getLsbD_mask h,
    Bool.and_comm]

theorem getLsbD_setField {bits offset : Nat} (h : bits < w) (hfit : offset + bits ≤ w)
    (word : BitVec w) {value : BitVec w} (hvalue : value.toNat < 2 ^ bits) (i : Nat) :
    (setField word offset bits value).getLsbD i =
      if offset ≤ i ∧ i < offset + bits then value.getLsbD (i - offset)
      else word.getLsbD i := by
  simp only [setField, BitVec.getLsbD_or, BitVec.getLsbD_and, BitVec.getLsbD_not,
    BitVec.getLsbD_shiftLeft, getLsbD_mask h]
  by_cases hin : offset ≤ i ∧ i < offset + bits
  · rw [if_pos hin]
    have hiw : i < w := by omega
    have hoff : ¬ i < offset := by omega
    have hlow : i - offset < bits := by omega
    simp [hiw, hoff, hlow]
  · rw [if_neg hin]
    by_cases hiw : i < w
    · by_cases hoff : i < offset
      · simp [hiw, hoff]
      · have hhigh : bits ≤ i - offset := by omega
        have hzero := getLsbD_of_toNat_lt hvalue hhigh
        have hout : ¬ i - offset < bits := by omega
        simp [hiw, hoff, hzero, hout]
    · simp [hiw, BitVec.getLsbD_of_ge word i (by omega)]

theorem toNat_field_lt {bits : Nat} (h : bits < w) (word : BitVec w) (offset : Nat) :
    (field word offset bits).toNat < 2 ^ bits := by
  rw [← le_mask_iff h]
  rw [field, BitVec.le_def, BitVec.toNat_and]
  exact Nat.and_le_right

theorem field_setField_same {bits offset : Nat} (h : bits < w) (hfit : offset + bits ≤ w)
    (word : BitVec w) {value : BitVec w} (hvalue : value.toNat < 2 ^ bits) :
    field (setField word offset bits value) offset bits = value := by
  apply BitVec.eq_of_getLsbD_eq
  intro i _
  rw [getLsbD_field h, getLsbD_setField h hfit word hvalue]
  by_cases hi : i < bits
  · rw [if_pos (by omega)]
    simp [hi]
  · simp [hi, getLsbD_of_toNat_lt hvalue (by omega : bits ≤ i)]

theorem setField_field {bits offset : Nat} (h : bits < w) (hfit : offset + bits ≤ w)
    (word : BitVec w) : setField word offset bits (field word offset bits) = word := by
  apply BitVec.eq_of_getLsbD_eq
  intro i _
  rw [getLsbD_setField h hfit word (toNat_field_lt h word offset), getLsbD_field h]
  by_cases hin : offset ≤ i ∧ i < offset + bits
  · have hlow : i - offset < bits := by omega
    have hback : offset + (i - offset) = i := by omega
    rw [if_pos hin, hback]
    simp [hlow]
  · rw [if_neg hin]

/-- Writing one field leaves every field that does not overlap it alone. -/
theorem field_setField_disjoint {bits offset other : Nat} (h : bits < w)
    (hfit : offset + bits ≤ w) (word : BitVec w) {value : BitVec w}
    (hvalue : value.toNat < 2 ^ bits)
    (hdisjoint : other + bits ≤ offset ∨ offset + bits ≤ other) :
    field (setField word offset bits value) other bits = field word other bits := by
  apply BitVec.eq_of_getLsbD_eq
  intro i _
  rw [getLsbD_field h, getLsbD_field h, getLsbD_setField h hfit word hvalue]
  by_cases hi : i < bits
  · rw [if_neg (by omega)]
  · simp [hi]

@[simp] theorem field_ushiftRight (word : BitVec w) (shift offset bits : Nat) :
    field (word >>> shift) offset bits = field word (shift + offset) bits := by
  rw [field, field, BitVec.shiftRight_add]

/-- A field at the top after a left shift, brought down by an arithmetic shift. -/
theorem signedField_eq {offset bits : Nat} (word : BitVec w) (v : Nat) (hpos : 0 < bits)
    (hfit : offset + bits ≤ w) :
    ((word <<< (w - offset - bits)).sshiftRight (w - bits)).signExtend v =
      (word.extractLsb' offset bits).signExtend v := by
  apply BitVec.eq_of_getLsbD_eq
  intro i hi
  simp only [BitVec.getLsbD_signExtend, BitVec.getLsbD_sshiftRight, BitVec.getLsbD_shiftLeft,
    BitVec.getLsbD_extractLsb', BitVec.msb_eq_getLsbD_last]
  grind

/-- Cutting a signed number to `bits` bits and extending it again reduces it to the
signed residue. -/
theorem toInt_signExtend_setWidth {bits : Nat} (v : BitVec w) (hw : bits ≤ w) :
    ((v.setWidth bits).signExtend w).toInt = v.toInt.bmod (2 ^ bits) := by
  rw [BitVec.toInt_signExtend_of_le hw, BitVec.toInt_setWidth,
    ← Int.bmod_bmod_of_dvd (Nat.pow_dvd_pow 2 hw), ← BitVec.toInt_eq_toNat_bmod]

/-- The numbers that a signed residue leaves alone are those that fit. -/
theorem bmod_two_pow_eq_self_iff {bits : Nat} {n : Int} :
    n.bmod (2 ^ (bits + 1)) = n ↔ -2 ^ bits ≤ n ∧ n < 2 ^ bits := by
  have hpow : ((2 ^ (bits + 1) : Nat) : Int) = 2 * 2 ^ bits := by
    push_cast
    ring
  rw [Int.bmod_eq_iff (Nat.two_pow_pos _), Int.sub_self]
  constructor
  · intro h
    omega
  · intro h
    exact ⟨by omega, by omega, dvd_zero _⟩

/-- The bits left of the leading zeros are the binary size. -/
theorem sub_clz_eq_size (v : BitVec w) : w - v.clz.toNat = v.toNat.size := by
  apply Nat.le_antisymm
  · by_cases hzero : v = 0#w
    · have hclz : v.clz = BitVec.ofNat w w := by simpa using BitVec.clz_eq_iff_eq_zero.mpr hzero
      rw [hclz, BitVec.toNat_ofNat, Nat.mod_eq_of_lt Nat.lt_two_pow_self, Nat.sub_self]
      exact Nat.zero_le _
    · by_contra hlt
      have hlow := BitVec.two_pow_sub_clz_le_toNat_of_ne_zero (by omega) hzero
      have hhigh := Nat.lt_size_self v.toNat
      have := Nat.pow_le_pow_right (n := 2) (by decide)
        (by omega : v.toNat.size ≤ w - 1 - v.clz.toNat)
      omega
  · exact Nat.size_le.mpr BitVec.toNat_lt_two_pow_sub_clz

/-! ## Packed arrays -/

/-- Cells are read with a default of zero so that the view is total; every lemma
that depends on the default bounds its index. -/
def cellAt (cells : List (BitVec w)) (c : Nat) : BitVec w := cells.getD c 0#w

/-- Entry `i` of an array holding `per` entries of `bits` bits in each cell. -/
def entry (per bits : Nat) (cells : List (BitVec w)) (i : Nat) : BitVec w :=
  field (cellAt cells (i / per)) (i % per * bits) bits

/-- Overwrite entry `i`. -/
def setEntry (per bits : Nat) (cells : List (BitVec w)) (i : Nat) (value : BitVec w) :
    List (BitVec w) :=
  cells.set (i / per) (setField (cellAt cells (i / per)) (i % per * bits) bits value)

/-- Every bit that belongs to none of the first `len` entries is zero. -/
def Clean (per bits len : Nat) (cells : List (BitVec w)) : Prop :=
  ∀ c j, (cellAt cells c).getLsbD j = true → j < per * bits ∧ c * per + j / bits < len

@[simp] theorem length_setEntry (per bits : Nat) (cells : List (BitVec w)) (i : Nat)
    (value : BitVec w) : (setEntry per bits cells i value).length = cells.length := by
  simp [setEntry]

theorem cellAt_set_same {cells : List (BitVec w)} {c : Nat} (hc : c < cells.length)
    (word : BitVec w) : cellAt (cells.set c word) c = word := by
  simp [cellAt, List.getD_eq_getElem?_getD, hc]

theorem cellAt_set_ne (cells : List (BitVec w)) {c c' : Nat} (hne : c ≠ c')
    (word : BitVec w) : cellAt (cells.set c word) c' = cellAt cells c' := by
  simp [cellAt, List.getD_eq_getElem?_getD, List.getElem?_set_ne hne]

section Packed

variable {per bits : Nat} (hper : 0 < per) (hbits : 0 < bits) (hlt : bits < w)
  (hfit : per * bits ≤ w)

include hper hfit in
theorem offset_fits (i : Nat) : i % per * bits + bits ≤ w := by
  have hmod : i % per + 1 ≤ per := Nat.mod_lt i hper
  calc
    i % per * bits + bits = (i % per + 1) * bits := by ring
    _ ≤ per * bits := Nat.mul_le_mul_right bits hmod
    _ ≤ w := hfit

include hlt in
theorem toNat_entry_lt (cells : List (BitVec w)) (i : Nat) :
    (entry per bits cells i).toNat < 2 ^ bits :=
  toNat_field_lt hlt _ _

include hper hlt hfit in
theorem entry_setEntry_same {cells : List (BitVec w)} {i : Nat} (hi : i / per < cells.length)
    {value : BitVec w} (hvalue : value.toNat < 2 ^ bits) :
    entry per bits (setEntry per bits cells i value) i = value := by
  rw [entry, setEntry, cellAt_set_same hi]
  exact field_setField_same hlt (offset_fits hper hfit i) _ hvalue

include hper hlt hfit in
theorem entry_setEntry_ne {cells : List (BitVec w)} {i j : Nat} (hi : i / per < cells.length)
    {value : BitVec w} (hvalue : value.toNat < 2 ^ bits) (hne : j ≠ i) :
    entry per bits (setEntry per bits cells i value) j = entry per bits cells j := by
  rw [entry, entry, setEntry]
  by_cases hcell : i / per = j / per
  · rw [← hcell, cellAt_set_same hi]
    apply field_setField_disjoint hlt (offset_fits hper hfit i) _ hvalue
    have hslots : j % per ≠ i % per := by
      intro hmod
      apply hne
      rw [← Nat.div_add_mod j per, ← Nat.div_add_mod i per, hcell, hmod]
    rcases Nat.lt_or_gt_of_ne hslots with hslot | hslot
    · left
      calc
        j % per * bits + bits = (j % per + 1) * bits := by ring
        _ ≤ i % per * bits := Nat.mul_le_mul_right bits hslot
    · right
      calc
        i % per * bits + bits = (i % per + 1) * bits := by ring
        _ ≤ j % per * bits := Nat.mul_le_mul_right bits hslot
  · rw [cellAt_set_ne _ hcell]

theorem clean_zero (len count : Nat) :
    Clean per bits len (List.replicate count 0#w) := by
  intro c j hbit
  exfalso
  revert hbit
  by_cases hc : c < count <;> simp [cellAt, List.getD_eq_getElem?_getD, hc]

include hper hlt hfit in
/-- Writing an entry leaves the bits that belong to none alone. -/
theorem getLsbD_setEntry_outside {len : Nat} {cells : List (BitVec w)} {i c j : Nat}
    (hi : i / per < cells.length) (hlen : i < len) {value : BitVec w}
    (hvalue : value.toNat < 2 ^ bits)
    (hout : ¬ (j < per * bits ∧ c * per + j / bits < len)) :
    (cellAt (setEntry per bits cells i value) c).getLsbD j = (cellAt cells c).getLsbD j := by
  rw [setEntry]
  by_cases hcell : i / per = c
  · subst hcell
    rw [cellAt_set_same hi, getLsbD_setField hlt (offset_fits hper hfit i) _ hvalue, if_neg]
    rintro ⟨hlow, hhigh⟩
    -- the bit would lie inside the entry that was written
    have hslot : j / bits = i % per := by
      apply Nat.div_eq_of_lt_le hlow
      rw [Nat.add_mul, Nat.one_mul]
      exact hhigh
    have hmod : i % per + 1 ≤ per := Nat.mod_lt i hper
    have hend := Nat.mul_le_mul_right bits hmod
    rw [Nat.add_mul, Nat.one_mul] at hend
    refine hout ⟨by omega, ?_⟩
    rw [hslot, Nat.div_add_mod']
    exact hlen
  · rw [cellAt_set_ne _ hcell]

include hper hlt hfit in
theorem clean_setEntry {len : Nat} {cells : List (BitVec w)} {i : Nat}
    (hi : i / per < cells.length) (hlen : i < len) {value : BitVec w}
    (hvalue : value.toNat < 2 ^ bits) (hclean : Clean per bits len cells) :
    Clean per bits len (setEntry per bits cells i value) := by
  intro c j hbit
  by_contra hout
  rw [getLsbD_setEntry_outside hper hlt hfit hi hlen hvalue hout] at hbit
  exact hout (hclean c j hbit)

include hper hlt hfit in
/-- Writing an entry with the value it has changes nothing. -/
theorem setEntry_entry (cells : List (BitVec w)) (i : Nat) :
    setEntry per bits cells i (entry per bits cells i) = cells := by
  rw [setEntry, entry, setField_field hlt (offset_fits hper hfit i)]
  by_cases hi : i / per < cells.length
  · rw [cellAt, List.getD_eq_getElem _ _ hi, List.set_getElem_self]
  · exact List.set_eq_of_length_le (Nat.le_of_not_lt hi)

include hper hbits hlt in
/-- Packed arrays without stray bits are equal once their entries are: the cells
are a function of the entries alone. -/
theorem eq_of_entries {len : Nat} {a b : List (BitVec w)}
    (ha : Clean per bits len a) (hb : Clean per bits len b) (hlength : a.length = b.length)
    (hentries : ∀ i < len, entry per bits a i = entry per bits b i) : a = b := by
  have hcells : ∀ c, cellAt a c = cellAt b c := by
    intro c
    apply BitVec.eq_of_getLsbD_eq
    intro j _
    by_cases hin : j < per * bits ∧ c * per + j / bits < len
    · have hslot : j / bits < per := Nat.div_lt_of_lt_mul (by rw [Nat.mul_comm]; exact hin.1)
      have hdiv : (c * per + j / bits) / per = c := by
        rw [Nat.add_comm, Nat.add_mul_div_right _ _ hper, Nat.div_eq_of_lt hslot, Nat.zero_add]
      have hmod : (c * per + j / bits) % per = j / bits := by
        rw [Nat.add_comm, Nat.add_mul_mod_self_right, Nat.mod_eq_of_lt hslot]
      have hentry := congrArg (fun v => v.getLsbD (j % bits)) (hentries _ hin.2)
      simp only [entry, hdiv, hmod, getLsbD_field hlt, Nat.mod_lt j hbits, decide_true,
        Bool.true_and, Nat.div_add_mod' j bits] at hentry
      exact hentry
    · have hzero : ∀ cells : List (BitVec w), Clean per bits len cells →
          (cellAt cells c).getLsbD j = false := by
        intro cells hcells
        by_contra hbit
        exact hin (hcells c j (by simpa using hbit))
      rw [hzero a ha, hzero b hb]
  apply List.ext_getElem hlength
  intro c hca hcb
  have := hcells c
  simpa [cellAt, List.getD_eq_getElem?_getD, hca, hcb] using this

end Packed

end Rukkit.Lib.Words
