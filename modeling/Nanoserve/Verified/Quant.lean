import Mathlib.Tactic.Linarith
import Mathlib.Tactic.FieldSimp
import Mathlib.Tactic.Ring
import Nanoserve.Engine.Quant

/-! # The quantization grid

Dividing a group by its scale brings its largest weight to one end of the grid.
-/

namespace Nanoserve.Verified

open Engine Lib List

variable {group : List Rat} {weight : Rat}

theorem roundHalfEven_intCast (code : Int) : roundHalfEven code = code := by
  simp [roundHalfEven]

theorem abs_roundHalfEven_sub_le (x : Rat) : |(roundHalfEven x : Rat) - x| ≤ 1 / 2 := by
  have low := Int.floor_le x
  have high := Int.lt_floor_add_one x
  rw [abs_le, roundHalfEven]
  split_ifs <;> push_cast <;> constructor <;> linarith

theorem abs_roundHalfEven_le {x : Rat} (bound : |x| ≤ qmax) : |roundHalfEven x| ≤ qmax := by
  have error := abs_roundHalfEven_sub_le x
  have near : |(roundHalfEven x : Rat)| < (qmax : Rat) + 1 := by
    rw [abs_le] at error bound
    rw [abs_lt]
    constructor <;> linarith
  have integral : |roundHalfEven x| < (qmax : Int) + 1 := by exact_mod_cast near
  omega

theorem absmax_cons (first : Rat) (group : List Rat) : absmax (first :: group) = max |first| (absmax group) := rfl

theorem le_absmax (mem : weight ∈ group) : |weight| ≤ absmax group := by
  induction group with
  | nil => cases mem
  | cons _ _ ih =>
    rcases mem_cons.mp mem with rfl | later
    · exact le_max_left _ _
    · exact le_max_of_le_right (ih later)

theorem absmax_le {most : Rat} (nonneg : 0 ≤ most) (bound : ∀ weight ∈ group, |weight| ≤ most) : absmax group ≤ most := by
  induction group with
  | nil => exact nonneg
  | cons _ _ ih =>
    obtain ⟨here, later⟩ := forall_mem_cons.mp bound
    exact max_le here (ih later)

theorem exists_absmax (positive : 0 < absmax group) : ∃ weight ∈ group, |weight| = absmax group := by
  induction group with
  | nil => exact absurd positive (lt_irrefl _)
  | cons first group ih =>
    rw [absmax_cons] at positive ⊢
    rcases le_total |first| (absmax group) with less | more
    · rw [max_eq_right less] at positive ⊢
      obtain ⟨weight, mem, same⟩ := ih positive
      exact ⟨weight, mem_cons_of_mem _ mem, same⟩
    · exact ⟨first, mem_cons_self, (max_eq_left more).symm⟩

theorem absmax_nonneg (group : List Rat) : 0 ≤ absmax group := by
  cases group with
  | nil => exact le_rfl
  | cons first => exact (abs_nonneg first).trans (le_max_left _ _)

theorem scaleOf_pos (group : List Rat) : 0 < scaleOf group := by
  rw [scaleOf]
  split
  · next positive => exact div_pos positive (by norm_num [qmax])
  · exact one_pos

theorem absmax_le_scale (group : List Rat) : absmax group ≤ qmax * scaleOf group := by
  rw [scaleOf]
  split
  · rw [mul_div_cancel₀ _ (by norm_num [qmax])]
  · next none => exact (not_lt.mp none).trans (by norm_num [qmax])

theorem abs_div_scale_le (mem : weight ∈ group) : |weight / scaleOf group| ≤ qmax := by
  have positive := scaleOf_pos group
  rw [abs_div, abs_of_pos positive, div_le_iff₀ positive]
  exact (le_absmax mem).trans (absmax_le_scale group)

def codeOf (group : List Rat) (weight : Rat) : Int := roundHalfEven (weight / scaleOf group)

theorem codeOf_bounds (mem : weight ∈ group) : -qmax ≤ codeOf group weight ∧ codeOf group weight ≤ qmax :=
  abs_le.mp (abs_roundHalfEven_le (abs_div_scale_le mem))

theorem clamp_codeOf (mem : weight ∈ group) : clamp (codeOf group weight) = codeOf group weight := by
  obtain ⟨low, high⟩ := codeOf_bounds mem
  rw [clamp, max_eq_left low, min_eq_left high]

theorem codesOf_eq (group : List Rat) : codesOf group = group.map (codeOf group) :=
  map_congr_left fun _ => clamp_codeOf

theorem abs_codeOf_mul_sub_le (group : List Rat) (weight : Rat) :
    |codeOf group weight * scaleOf group - weight| ≤ scaleOf group / 2 := by
  have positive := scaleOf_pos group
  have error := abs_roundHalfEven_sub_le (weight / scaleOf group)
  have scaled : codeOf group weight * scaleOf group - weight =
      ((codeOf group weight : Rat) - weight / scaleOf group) * scaleOf group := by
    rw [sub_mul, div_mul_cancel₀ _ positive.ne']
  rw [scaled, abs_mul, abs_of_pos positive]
  calc |(codeOf group weight : Rat) - weight / scaleOf group| * scaleOf group
      ≤ 1 / 2 * scaleOf group := mul_le_mul_of_nonneg_right error positive.le
    _ = scaleOf group / 2 := by ring

theorem codeOf_grid (group : List Rat) (code : Int) : codeOf group (code * scaleOf group) = code := by
  rw [codeOf, mul_div_cancel_right₀ _ (scaleOf_pos group).ne', roundHalfEven_intCast]

theorem codeOf_zero (group : List Rat) : codeOf group 0 = 0 := by
  simpa using codeOf_grid group 0

def regained (group : List Rat) : List Rat := weightsOf (codesOf group) (scaleOf group)

theorem mem_regained : weight ∈ regained group ↔ ∃ old ∈ group, codeOf group old * scaleOf group = weight := by
  simp [regained, weightsOf, codesOf_eq]

theorem scaleOf_mul (positive : 0 < absmax group) : qmax * scaleOf group = absmax group := by
  rw [scaleOf, if_pos positive, mul_div_cancel₀ _ (by norm_num [qmax])]

theorem codeOf_extreme (positive : 0 < absmax group) (extreme : |weight| = absmax group) :
    codeOf group weight * scaleOf group = weight := by
  have grid : ∃ code : Int, weight = code * scaleOf group := by
    rw [← scaleOf_mul positive] at extreme
    rcases abs_choice weight with up | down
    · exact ⟨qmax, by rw [← up, extreme, Int.cast_natCast]⟩
    · refine ⟨-qmax, ?_⟩
      rw [Int.cast_neg, Int.cast_natCast, neg_mul, ← extreme, down, neg_neg]
  obtain ⟨code, same⟩ := grid
  rw [same, codeOf_grid]

theorem absmax_regained (group : List Rat) : absmax (regained group) = absmax group := by
  rcases (absmax_nonneg group).eq_or_lt with zero | positive
  · refine le_antisymm (absmax_le (absmax_nonneg _) fun weight mem => ?_) (zero ▸ absmax_nonneg _)
    obtain ⟨old, inGroup, rfl⟩ := mem_regained.mp mem
    have nothing : old = 0 := abs_nonpos_iff.mp (zero ▸ le_absmax inGroup)
    rw [nothing, codeOf_zero, Int.cast_zero, zero_mul, abs_zero]
    exact absmax_nonneg _
  · apply le_antisymm
    · refine absmax_le positive.le fun weight mem => ?_
      obtain ⟨old, inGroup, rfl⟩ := mem_regained.mp mem
      have bound : |(codeOf group old : Rat)| ≤ qmax := by exact_mod_cast abs_le.mpr (codeOf_bounds inGroup)
      rw [abs_mul, abs_of_pos (scaleOf_pos group), ← scaleOf_mul positive]
      exact mul_le_mul_of_nonneg_right bound (scaleOf_pos group).le
    · obtain ⟨weight, mem, extreme⟩ := exists_absmax positive
      rw [← extreme]
      exact le_absmax (mem_regained.mpr ⟨weight, mem, codeOf_extreme positive extreme⟩)

theorem scaleOf_regained (group : List Rat) : scaleOf (regained group) = scaleOf group := by
  rw [scaleOf, scaleOf, absmax_regained]

theorem codesOf_regained (group : List Rat) : codesOf (regained group) = codesOf group := by
  have again : ∀ code : Int, codeOf (regained group) (code * scaleOf group) = code := by
    intro code
    rw [← scaleOf_regained group, codeOf_grid]
  calc codesOf (regained group)
      = (codesOf group).map fun code : Int => codeOf (regained group) (code * scaleOf group) := by
        rw [codesOf_eq]
        exact map_map
    _ = codesOf group := by simp only [again, map_id']

/-! ## The tensors -/

section Rows

variable {size count : Nat} {row : List Rat} (length : row.length = count * size)
include length

theorem groups_codes : groups size count (codeGroups size count row).flatten = codeGroups size count row := by
  have again := groups_flatten (length_of_mem_codeGroups length)
  rwa [codeGroups, length_map, length_groups] at again

theorem weightGroups_codes :
    weightGroups size count (codeGroups size count row).flatten ((groups size count row).map scaleOf) =
      (groups size count row).map regained := by
  rw [weightGroups, groups_codes length, codeGroups, zipWith_map, zipWith_self]
  rfl

theorem length_of_mem_regained : ∀ part ∈ (groups size count row).map regained, part.length = size := by
  rw [← weightGroups_codes length]
  refine length_of_mem_weightGroups ?_
  rw [length_flatten_groups (length_of_mem_codeGroups length), codeGroups, length_map, length_groups]

theorem groups_regained :
    groups size count ((groups size count row).map regained).flatten = (groups size count row).map regained := by
  have again := groups_flatten (length_of_mem_regained length)
  rwa [length_map, length_groups] at again

end Rows

structure Quantizes (weight : Tensor Rat) {size : Nat} (count : Nat) (quantized : Quantized size) : Prop where
  inFeatures : quantized.codes.inFeatures = weight.inFeatures
  groupCount : quantized.scales.inFeatures = count
  codes : quantized.codes.rows = weight.rows.map fun row => (codeGroups size count row).flatten
  scales : quantized.scales.rows = weight.rows.map fun row => (groups size count row).map scaleOf
  weights : (dequantizeTensor quantized).rows = weight.rows.map fun row => ((groups size count row).map regained).flatten

section Tensors

variable {weight : Tensor Rat} {size count : Nat} (positive : 0 < size) (width : weight.inFeatures = count * size)
include positive width

theorem quantizeTensor_spec :
    ∃ quantized : Quantized size, quantizeTensor weight size = .ok quantized ∧ Quantizes weight count quantized := by
  have split : weight.inFeatures / size = count := by rw [width, Nat.mul_div_cancel _ positive]
  have rest : ¬weight.inFeatures % size ≠ 0 := by simp [width]
  refine ⟨_, by rw [quantizeTensor, dif_neg positive.ne', dif_neg rest], rfl, split, ?_, ?_, ?_⟩
  · simp only [split]
  · simp only [split]
  · simp only [dequantizeTensor, split, zipWith_map, zipWith_self]
    apply map_congr_left
    intro row mem
    rw [weightGroups_codes ((weight.sized row mem).trans width)]

theorem quantizeTensor_dequantizeTensor {quantized : Quantized size} (first : Quantizes weight count quantized) :
    quantizeTensor (dequantizeTensor quantized) size = .ok quantized := by
  obtain ⟨_, done, second⟩ :=
    @quantizeTensor_spec (dequantizeTensor quantized) size count positive (first.inFeatures.trans width)
  have rows : ∀ row ∈ weight.rows, groups size count ((groups size count row).map regained).flatten =
      (groups size count row).map regained := fun row mem => groups_regained ((weight.sized row mem).trans width)
  rw [done]
  congr 1
  apply Quantized.ext
  · apply Tensor.ext second.inFeatures
    rw [second.codes, first.weights, first.codes, map_map]
    apply map_congr_left
    intro row mem
    simp only [Function.comp_def, codeGroups, rows row mem, map_map, codesOf_regained]
  · apply Tensor.ext (second.groupCount.trans first.groupCount.symm)
    rw [second.scales, first.weights, first.scales, map_map]
    apply map_congr_left
    intro row mem
    simp only [Function.comp_def, rows row mem, map_map, scaleOf_regained]

end Tensors

theorem Quantizes.entry {weight : Tensor Rat} {size count : Nat} (positive : 0 < size)
    (width : weight.inFeatures = count * size) {quantized : Quantized size} (spec : Quantizes weight count quantized)
    {o i : Nat} {w : Rat} (entry : weight.entry o i = some w) :
    ∃ group, w ∈ group ∧ quantized.codes.entry o i = some (codeOf group w) ∧
      quantized.scales.entry o (i / size) = some (scaleOf group) ∧
      (dequantizeTensor quantized).entry o i = some (codeOf group w * scaleOf group) := by
  obtain ⟨row, rowAt, itemAt⟩ := Option.bind_eq_some_iff.mp entry
  have length := (weight.sized row (mem_of_getElem? rowAt)).trans width
  rw [← flatten_groups length, getElem?_flatten positive fun _ => length_of_mem_groups length] at itemAt
  obtain ⟨group, groupAt, inGroup⟩ := Option.bind_eq_some_iff.mp itemAt
  refine ⟨group, mem_of_getElem? inGroup, ?_, ?_, ?_⟩
  · have coded := getElem?_flatten positive (length_of_mem_codeGroups length) i
    simp only [Tensor.entry, spec.codes, getElem?_map, rowAt, Option.map_some, Option.bind_some, coded]
    simp [codeGroups, groupAt, codesOf_eq, inGroup]
  · simp [Tensor.entry, spec.scales, rowAt, groupAt]
  · have back := getElem?_flatten positive (length_of_mem_regained length) i
    simp only [Tensor.entry, spec.weights, getElem?_map, rowAt, Option.map_some, Option.bind_some, back]
    simp [groupAt, regained, weightsOf, codesOf_eq, inGroup]

/-- For every weight whose width is a multiple of the group size: no code is clamped, every weight
comes back to within half a scale and a zero as it was, and what comes back is quantized as the
weight was. -/
theorem quantization_grid (weight : Tensor Rat) (groupSize : Nat) (positive : 0 < groupSize)
    (divides : groupSize ∣ weight.inFeatures) :
    ∃ quantized, quantizeTensor weight groupSize = .ok quantized ∧
      quantizeTensor (dequantizeTensor quantized) groupSize = .ok quantized ∧
      ∀ o i w, weight.entry o i = some w → ∃ code scale, quantized.codes.entry o i = some code ∧
        quantized.scales.entry o (i / groupSize) = some scale ∧
        (dequantizeTensor quantized).entry o i = some (code * scale) ∧
        code = roundHalfEven (w / scale) ∧ -127 ≤ code ∧ code ≤ 127 ∧
        |code * scale - w| ≤ scale / 2 ∧ (w = 0 → code * scale = 0) := by
  have width : weight.inFeatures = weight.inFeatures / groupSize * groupSize := (Nat.div_mul_cancel divides).symm
  obtain ⟨quantized, done, spec⟩ := quantizeTensor_spec positive width
  refine ⟨quantized, done, quantizeTensor_dequantizeTensor positive width spec, fun o i w entry => ?_⟩
  obtain ⟨group, member, codeAt, scaleAt, back⟩ := spec.entry positive width entry
  obtain ⟨low, high⟩ := codeOf_bounds member
  refine ⟨_, _, codeAt, scaleAt, back, rfl, low, high, abs_codeOf_mul_sub_le group w, ?_⟩
  rintro rfl
  rw [codeOf_zero, Int.cast_zero, zero_mul]

/-- One row of two groups: the second weight is half way between two codes. -/
def halfway : Tensor Rat := ⟨4, [[1, -1 / 2, 0, 0]], by decide⟩

theorem quantization_grid_halfway :
    (quantizeTensor halfway 2).toOption.map (fun quantized => (quantized.codes.rows, quantized.scales.rows)) =
        some ([[127, -64, 0, 0]], [[1 / 127, 1]]) ∧
      ∃ quantized, quantizeTensor halfway 2 = .ok quantized ∧
        quantizeTensor (dequantizeTensor quantized) 2 = .ok quantized := by
  refine ⟨by decide +kernel, ?_⟩
  obtain ⟨quantized, done, again, -⟩ := quantization_grid halfway 2 (by decide) (by decide)
  exact ⟨quantized, done, again⟩

end Nanoserve.Verified
