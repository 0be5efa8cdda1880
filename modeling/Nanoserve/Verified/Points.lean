import Nanoserve.Verified.Ring

/-! # Where the points of a ring are

The finalizer of `hashKey` is a permutation of the words.
-/

namespace Nanoserve.Verified

open Lib Router List Function

def xorShift (k : UInt64) : UInt64 := k ^^^ (k >>> 33)

theorem shift_shift (k : UInt64) : k >>> 33 >>> 33 = 0 := by
  apply UInt64.toNat_inj.mp
  have small := k.toNat_lt
  have shift : (33 : UInt64).toNat % 64 = 33 := rfl
  rw [UInt64.toNat_shiftRight, UInt64.toNat_shiftRight, shift, ← Nat.shiftRight_add, Nat.shiftRight_eq_div_pow]
  exact Nat.div_eq_of_lt (Nat.lt_trans small (by decide))

theorem xorShift_involutive : Involutive xorShift := by
  intro k
  simp only [xorShift, UInt64.shiftRight_xor, shift_shift, UInt64.xor_zero]
  rw [UInt64.xor_assoc, UInt64.xor_self, UInt64.xor_zero]

theorem mul_bijective {factor inverse : UInt64} (unit : factor * inverse = 1) :
    Bijective fun k : UInt64 => k * factor := by
  refine bijective_iff_has_inverse.mpr ⟨fun k => k * inverse, fun k => ?_, fun k => ?_⟩
  · simp only [UInt64.mul_assoc, unit, UInt64.mul_one]
  · simp only [UInt64.mul_assoc, UInt64.mul_comm inverse factor, unit, UInt64.mul_one]

theorem fmix64_permutes : Bijective fmix64 := by
  have first : (0xff51afd7ed558ccd : UInt64) * 0x4f74430c22a54005 = 1 := by decide
  have second : (0xc4ceb9fe1a85ec53 : UInt64) * 0x9cb4b2f8129337db = 1 := by decide
  have shift := xorShift_involutive.bijective
  exact shift.comp ((mul_bijective second).comp (shift.comp ((mul_bijective first).comp shift)))

/-- The finalizer maps no two words together, so two strings collide on the ring exactly
if their FNV-1a hashes do. -/
theorem hashKey_collides_iff :
    Function.Bijective fmix64 ∧ ∀ first second : List UInt8, hashKey first = hashKey second ↔ fnv1a first = fnv1a second :=
  ⟨fmix64_permutes, fun _ _ => fmix64_permutes.injective.eq_iff⟩

variable {ring : Ring} {id : String} {rep : Replica}

/-- `index` is that of the first point at or after `hash`, or 0 if there is none. -/
def FirstFrom (points : List RingPoint) (hash : UInt64) (index : Nat) : Prop :=
  (∃ point, points[index]? = some point ∧ hash ≤ point.hash ∧
    ∀ (i : Nat) earlier, i < index → points[i]? = some earlier → earlier.hash < hash) ∨
  index = 0 ∧ ∀ point ∈ points, point.hash < hash

theorem search_first (ring : Ring) (hash : UInt64) : FirstFrom ring.points hash (ring.search hash) := by
  simp only [Ring.search]
  split
  · next past =>
    rw [findIdx_eq_length] at past
    refine .inr ⟨rfl, fun point mem => ?_⟩
    simpa using past point mem
  · next inside =>
    have lt := Nat.lt_of_le_of_ne (findIdx_le_length) inside
    refine .inl ⟨_, getElem?_eq_getElem lt, by simpa using findIdx_getElem (w := lt), fun i earlier before early => ?_⟩
    obtain ⟨_, rfl⟩ := List.getElem?_eq_some_iff.mp early
    simpa using not_of_lt_findIdx before

theorem searchSlice_eq (shaped : Shaped ring) (hash : UInt64) : ring.searchSlice hash = ring.search hash := by
  have sorted : ring.points.Pairwise fun first second =>
      decide (hash ≤ first.hash) = true → decide (hash ≤ second.hash) = true := by
    refine shaped.sorted.imp fun {first second} le => ?_
    simp only [decide_eq_true_eq, UInt64.le_iff_toNat_le]
    omega
  simp only [Ring.searchSlice, Ring.search, searchList_eq_findIdx sorted]

theorem Shaped.points_of (shaped : Shaped ring) (id : String) :
    (ring.points.filter fun point => decide (point.replicaId = id)).Perm
      (if (ring.replicas.get? id).isSome then Ring.pointsOf ring.virtualNodes id else []) := by
  have own := shaped.points.filter fun point => decide (point.replicaId = id)
  rw [flatMap_pointsOf_filter _ (fun other => decide (other = id)), filter_eq] at own
  refine own.trans (.of_eq ?_)
  split
  · next present =>
    rw [count_eq_one_of_mem ring.replicas.nodup_keys (Dict.mem_keys_iff_isSome.mpr present)]
    simp
  · next absent =>
    rw [count_eq_zero_of_not_mem fun mem => absent (Dict.mem_keys_iff_isSome.mp mem)]
    rfl

theorem Shaped.member_of_point (shaped : Shaped ring) {point : RingPoint} (mem : point ∈ ring.points) :
    ∃ rep, ring.replicas.get? point.replicaId = some rep := by
  obtain ⟨_, known, own⟩ := mem_flatMap.mp (shaped.points.subset mem)
  rw [replicaId_of_mem_pointsOf own]
  exact Dict.mem_keys.mp known

theorem Shaped.meets (shaped : Shaped ring) (present : ring.replicas.get? id = some rep) (start : Nat) :
    ∃ step point, step < ring.points.length ∧ ring.points[(start + step) % ring.points.length]? = some point ∧
      point.replicaId = id := by
  obtain ⟨point, mem, same⟩ := shaped.exists_point present
  obtain ⟨i, lt, rfl⟩ := getElem_of_mem mem
  have size : 0 < ring.points.length := by omega
  refine ⟨(i + (ring.points.length - start % ring.points.length)) % ring.points.length, _, Nat.mod_lt _ size, ?_, same⟩
  -- The way back to the first point, and from there to the `i`th.
  have around : start + (i + (ring.points.length - start % ring.points.length)) =
      i + ring.points.length * (start / ring.points.length + 1) := by
    have parts := Nat.div_add_mod start ring.points.length
    have below := Nat.mod_lt start size
    rw [Nat.mul_add, Nat.mul_one]
    omega
  rw [Nat.add_mod_mod, around, Nat.add_mul_mod_self_left, Nat.mod_eq_of_lt lt]
  exact getElem?_eq_getElem lt

/-- Whatever calls built the ring: its points are sorted, each member has its virtual nodes and nobody
else has any, and from where a search ends every member is met once round. -/
theorem points_represent_members (virtualNodes : Nat) (epsilon : Epsilon) (calls : List RingCall) :
    let ring := (Ring.new virtualNodes epsilon).after calls
    (ring.points.Pairwise fun first second => first.hash ≤ second.hash) ∧
    (∀ id, (ring.points.filter fun point => decide (point.replicaId = id)).Perm
      (if (ring.replicas.get? id).isSome then Ring.pointsOf ring.virtualNodes id else [])) ∧
    (∀ point ∈ ring.points, ∃ replica, ring.replicas.get? point.replicaId = some replica) ∧
    ∀ hash, FirstFrom ring.points hash (ring.searchSlice hash) ∧
      ∀ id replica, ring.replicas.get? id = some replica → ∃ step point, step < ring.points.length ∧
        ring.points[(ring.searchSlice hash + step) % ring.points.length]? = some point ∧ point.replicaId = id := by
  intro ring
  have shaped : Shaped ring := (Shaped.new virtualNodes epsilon).after calls
  refine ⟨shaped.sorted.imp UInt64.le_iff_toNat_le.mpr, shaped.points_of, fun _ => shaped.member_of_point, fun hash => ⟨?_, ?_⟩⟩
  · rw [searchSlice_eq shaped]
    exact search_first ring hash
  · exact fun id replica present => shaped.meets present _

end Nanoserve.Verified
