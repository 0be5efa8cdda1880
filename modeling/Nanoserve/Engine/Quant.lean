import Mathlib.Algebra.Order.Floor.Defs
import Mathlib.Data.Rat.Floor
import Nanoserve.Lib.Groups

/-! # INT8 weights

`quantize_tensor` and `dequantize_tensor` of `engine/quant.py`, in exact arithmetic. A weight is a
list of rows; `reshape` splits every row into groups of `group_size` and puts them together again.
-/

namespace Nanoserve.Engine

open Lib

/-- A tensor of shape `(out, in)`. -/
@[ext] structure Tensor (α : Type) where
  inFeatures : Nat
  rows : List (List α)
  sized : ∀ row ∈ rows, row.length = inFeatures

def Tensor.entry {α : Type} (tensor : Tensor α) (row column : Nat) : Option α := (tensor.rows[row]?).bind (·[column]?)

/-- The codes, and a scale for every group of a row. -/
@[ext] structure Quantized (groupSize : Nat) where
  codes : Tensor Int
  scales : Tensor Rat
  positive : 0 < groupSize
  grouped : codes.inFeatures = scales.inFeatures * groupSize
  scaled : codes.rows.length = scales.rows.length

inductive QuantError where
  | zeroDivisionError
  | valueError (message : String)
deriving DecidableEq, Repr

/-! ## One group -/

def qmax : Nat := 127

/-- `torch.round` takes a half to the even side. -/
def roundHalfEven (x : Rat) : Int :=
  if x - ⌊x⌋ < 1 / 2 then ⌊x⌋
  else if 1 / 2 < x - ⌊x⌋ then ⌊x⌋ + 1
  else if ⌊x⌋ % 2 = 0 then ⌊x⌋
  else ⌊x⌋ + 1

/-- `clamp(-QMAX, QMAX)` -/
def clamp (code : Int) : Int := min (max code (-qmax)) qmax

def absmax (group : List Rat) : Rat := group.foldr (fun weight most => max |weight| most) 0

def scaleOf (group : List Rat) : Rat := if absmax group > 0 then absmax group / qmax else 1

def codesOf (group : List Rat) : List Int := group.map fun weight => clamp (roundHalfEven (weight / scaleOf group))

def weightsOf (codes : List Int) (scale : Rat) : List Rat := codes.map fun code : Int => (code : Rat) * scale

/-! ## The tensors -/

def codeGroups (size count : Nat) (row : List Rat) : List (List Int) := (groups size count row).map codesOf

def weightGroups (size count : Nat) (codes : List Int) (scales : List Rat) : List (List Rat) :=
  List.zipWith weightsOf (groups size count codes) scales

theorem length_of_mem_codeGroups {size count : Nat} {row : List Rat} (length : row.length = count * size) :
    ∀ part ∈ codeGroups size count row, part.length = size := by
  intro part member
  obtain ⟨group, inRow, rfl⟩ := List.mem_map.mp member
  rw [codesOf, List.length_map, length_of_mem_groups length inRow]

theorem length_of_mem_weightGroups {size count : Nat} {codes : List Int} {scales : List Rat}
    (length : codes.length = count * size) : ∀ part ∈ weightGroups size count codes scales, part.length = size := by
  intro part member
  rw [weightGroups, ← List.map_uncurry_zip_eq_zipWith] at member
  obtain ⟨⟨group, scale⟩, zipped, rfl⟩ := List.mem_map.mp member
  rw [Function.uncurry_apply_pair, weightsOf, List.length_map,
    length_of_mem_groups length (List.of_mem_zip zipped).1]

def quantizeTensor (weight : Tensor Rat) (groupSize : Nat) : Except QuantError (Quantized groupSize) :=
  if zero : groupSize = 0 then .error .zeroDivisionError
  else if rest : weight.inFeatures % groupSize ≠ 0 then
    .error (.valueError ("in_features=" ++ toString weight.inFeatures ++ " is not divisible by group_size=" ++
      toString groupSize))
  else
    let count := weight.inFeatures / groupSize
    have width : weight.inFeatures = count * groupSize :=
      (Nat.div_mul_cancel (Nat.dvd_of_mod_eq_zero (not_not.mp rest))).symm
    .ok {
      codes := {
        inFeatures := weight.inFeatures
        rows := weight.rows.map fun row => (codeGroups groupSize count row).flatten
        sized := List.forall_mem_map.mpr fun row member => by
          have length := length_of_mem_codeGroups ((weight.sized row member).trans width)
          rw [length_flatten_groups length, codeGroups, List.length_map, length_groups, width] }
      scales := {
        inFeatures := count
        rows := weight.rows.map fun row => (groups groupSize count row).map scaleOf
        sized := List.forall_mem_map.mpr fun row _ => by rw [List.length_map, length_groups] }
      positive := Nat.pos_of_ne_zero zero
      grouped := width
      scaled := by rw [List.length_map, List.length_map] }

def dequantizeTensor {groupSize : Nat} (quantized : Quantized groupSize) : Tensor Rat where
  inFeatures := quantized.codes.inFeatures
  rows := List.zipWith
    (fun codes scales => (weightGroups groupSize (quantized.codes.inFeatures / groupSize) codes scales).flatten)
    quantized.codes.rows quantized.scales.rows
  sized := by
    rw [← List.map_uncurry_zip_eq_zipWith]
    refine List.forall_mem_map.mpr fun (codes, scales) zipped => ?_
    have count : quantized.codes.inFeatures / groupSize = quantized.scales.inFeatures := by
      rw [quantized.grouped, Nat.mul_div_cancel _ quantized.positive]
    obtain ⟨inCodes, inScales⟩ := List.of_mem_zip zipped
    have length := @length_of_mem_weightGroups _ _ _ scales
      ((quantized.codes.sized codes inCodes).trans quantized.grouped)
    simp only [Function.uncurry_apply_pair, count]
    rw [length_flatten_groups length, weightGroups, List.length_zipWith, length_groups, quantized.scales.sized scales inScales,
      Nat.min_self, quantized.grouped]

end Nanoserve.Engine
