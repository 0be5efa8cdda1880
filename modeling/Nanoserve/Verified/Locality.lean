import Nanoserve.Verified.Ring

/-! # Where keys go

A pick depends on the membership of the ring, the readiness and the loads.
-/

namespace Nanoserve.Verified

open Lib Router Function Dict List

variable {ring first second : Ring} {id : String}

/-! ## Two rings with the same members -/

/-- What a pick reads of a replica. -/
def Replica.status (replica : Replica) : Bool × Nat := (replica.ready, replica.load)

def status (ring : Ring) (id : String) : Option (Bool × Nat) := (ring.replicas.get? id).map Replica.status

theorem eligible_eq_status (ring : Ring) (exclude : List String) (limit : Nat) (point : RingPoint) :
    eligible ring exclude limit point =
      match status ring point.replicaId with
      | none => false
      | some (ready, load) => ready && decide (point.replicaId ∉ exclude) && decide (load < limit) := by
  unfold eligible status
  cases ring.replicas.get? point.replicaId <;> rfl

theorem places_nodup {points : List RingPoint} (distinct : (points.map RingPoint.hash).Nodup) :
    (points.map place).Nodup := by
  have injective : Injective UInt64.toNat := fun _ _ => UInt64.toNat_inj.mp
  have places : points.map place = (points.map RingPoint.hash).map UInt64.toNat := (map_map ..).symm
  rw [places]
  exact distinct.map injective

section SameMembers

theorem keys_perm (same : ∀ id, (first.replicas.get? id).isSome = (second.replicas.get? id).isSome) :
    first.replicas.keys.Perm second.replicas.keys := by
  refine (perm_ext_iff_of_nodup first.replicas.nodup_keys second.replicas.nodup_keys).mpr ?_
  intro id
  rw [Dict.mem_keys, Dict.mem_keys, ← Option.isSome_iff_exists, ← Option.isSome_iff_exists, same]

theorem points_eq (same : ∀ id, (first.replicas.get? id).isSome = (second.replicas.get? id).isSome)
    (shaped : Shaped first) (shapedToo : Shaped second) (nodes : first.virtualNodes = second.virtualNodes)
    (distinct : (first.points.map RingPoint.hash).Nodup) : first.points = second.points := by
  have perm : first.points.Perm second.points := by
    refine shaped.points.trans (Perm.trans ?_ shapedToo.points.symm)
    rw [nodes]
    exact (keys_perm same).flatMap_right _
  exact eq_of_perm_of_sorted perm shaped.sorted shapedToo.sorted (places_nodup distinct)

variable (same : ∀ id, status first id = status second id)
include same

theorem isSome_eq (id : String) : (first.replicas.get? id).isSome = (second.replicas.get? id).isSome := by
  have agree := congrArg Option.isSome (same id)
  simpa only [status, Option.isSome_map] using agree

theorem statuses_perm :
    (first.replicas.values.map Replica.status).Perm (second.replicas.values.map Replica.status) := by
  have statuses (ring : Ring) :
      (ring.replicas.values.map Replica.status).map some = ring.replicas.keys.map (status ring) := by
    have values := congrArg (map (Option.map Replica.status)) ring.replicas.map_some_values
    rw [map_map, map_map] at values
    rw [map_map]
    exact values
  refine (map_perm_map_iff (Option.some_injective _)).mp ?_
  rw [statuses, statuses, funext same]
  exact (keys_perm (isSome_eq same)).map _

theorem pickLimit_eq (epsilons : first.epsilon = second.epsilon) : pickLimit first = pickLimit second := by
  have loads (ring : Ring) : ring.readyReplicas.map Replica.load =
      ((ring.replicas.values.map Replica.status).filter Prod.fst).map Prod.snd := by
    simp [Ring.readyReplicas, filter_map, comp_def, Replica.status]
  have perm : (first.readyReplicas.map Replica.load).Perm (second.readyReplicas.map Replica.load) := by
    rw [loads, loads]
    exact ((statuses_perm same).filter _).map _
  have lengths : first.readyReplicas.length = second.readyReplicas.length := by simpa using perm.length_eq
  rw [pickLimit, pickLimit, perm.sum_eq, lengths, epsilons]

theorem eligible_eq (exclude : List String) (limit : Nat) :
    eligible first exclude limit = eligible second exclude limit := by
  funext point
  rw [eligible_eq_status, eligible_eq_status, same]

end SameMembers

/-- Two routers with the same view of the replicas pick the same one, however each came by its view. -/
theorem routers_agree (virtualNodes : Nat) (epsilon : Epsilon) (history other : List RingCall) {first second : Ring}
    (reached : first = (Ring.new virtualNodes epsilon).after history)
    (reachedToo : second = (Ring.new virtualNodes epsilon).after other)
    (same : ∀ id, status first id = status second id) (distinct : (first.points.map RingPoint.hash).Nodup)
    (key : List UInt8) (exclude : List String) {id : String} {candidate : Replica}
    (present : first.replicas.get? id = some candidate) (ready : candidate.ready = true) (notExcluded : id ∉ exclude)
    (under : candidate.load < pickLimit first) :
    ∃ replica twin, pickWalk first key exclude = some replica ∧ pickWalk second key exclude = some twin ∧
      replica.id = twin.id ∧ first.pickExcluding key exclude = some (first.take replica) ∧
      second.pickExcluding key exclude = some (second.take twin) := by
  have shaped : Shaped first := reached ▸ (Shaped.new virtualNodes epsilon).after history
  have shapedToo : Shaped second := reachedToo ▸ (Shaped.new virtualNodes epsilon).after other
  have settings := after_settings (Ring.new virtualNodes epsilon) history
  have settingsToo := after_settings (Ring.new virtualNodes epsilon) other
  rw [← reached] at settings
  rw [← reachedToo] at settingsToo
  have limits : pickLimit first = pickLimit second := pickLimit_eq same (settings.2.trans settingsToo.2.symm)
  have points : first.points = second.points :=
    points_eq (isSome_eq same) shaped shapedToo (settings.1.trans settingsToo.1.symm) distinct
  obtain ⟨point, found⟩ := exists_found shaped key present ready notExcluded under
  have foundToo : (route second key).find? (eligible second exclude (pickLimit second)) = some point := by
    rw [← eligible_eq same, ← limits, route, ← points]
    exact found
  obtain ⟨replica, -, -, -, -, isPoint, walked, picked⟩ := pick_of_found shaped found
  obtain ⟨twin, -, -, -, -, isPointToo, walkedToo, pickedToo⟩ := pick_of_found shapedToo foundToo
  exact ⟨replica, twin, walked, walkedToo, isPoint.trans isPointToo.symm, picked, pickedToo⟩

/-- A history in which both replicas come in one after the other. -/
def orderly : List RingCall := [.add "a" "host:1", .add "b" "host:2", .setReady "a" true, .setReady "b" true]

/-- Another history with the same end. -/
def roundabout : List RingCall :=
  [.add "b" "host:2", .add "c" "host:3", .setReady "b" true, .pick [] [], .add "a" "host:1", .remove "c",
    .setReady "a" true, .release "b"]

theorem status_eq_none (absent : id ∉ ring.replicas.keys) : status ring id = none := by
  rw [Dict.mem_keys, ← Option.isSome_iff_exists, Option.not_isSome_iff_eq_none] at absent
  rw [status, absent, Option.map_none]

abbrev fourPoints (calls : List RingCall) : Ring := (Ring.new 2 (.finite (1 / 4))).after calls

theorem status_orderly_roundabout (id : String) :
    status (fourPoints orderly) id =
      status (fourPoints roundabout) id := by
  by_cases known : id = "a" ∨ id = "b"
  · rcases known with rfl | rfl
    · decide +kernel
    · decide +kernel
  · have keys : (fourPoints orderly).replicas.keys = ["a", "b"] := by decide +kernel
    have keysToo : (fourPoints roundabout).replicas.keys = ["b", "a"] := by decide +kernel
    have absent : id ∉ (fourPoints orderly).replicas.keys := by
      rw [keys]
      simpa using known
    have absentToo : id ∉ (fourPoints roundabout).replicas.keys := by
      rw [keysToo]
      simpa [and_comm] using known
    rw [status_eq_none absent, status_eq_none absentToo]

theorem routers_agree_roundabout :
    ∃ replica twin, pickWalk (fourPoints orderly) [104, 105] ["c"] = some replica ∧
      pickWalk (fourPoints roundabout) [104, 105] ["c"] = some twin ∧
      replica.id = twin.id := by
  have candidate : (fourPoints orderly).replicas.get? "a" =
      some { id := "a", addr := "host:1", ready := true } := by decide +kernel
  obtain ⟨replica, twin, walked, walkedToo, same, -⟩ := routers_agree 2 (.finite (1 / 4)) orderly roundabout rfl rfl
    status_orderly_roundabout (by decide +kernel) [104, 105] ["c"] candidate rfl (by decide) (by decide +kernel)
  exact ⟨replica, twin, walked, walkedToo, same⟩

/-- Who gets the next request for the key. -/
def owner (ring : Ring) (key : List UInt8) : Option String :=
  (ring.pickExcluding key []).map fun picked => picked.1.id

theorem leastLoaded_nil (ring : Ring) : ring.leastLoaded [] = ring.readyReplicas.argmin Replica.load := by
  rw [leastLoaded_eq_argmin]
  congr 1
  simp [candidates, Ring.readyReplicas, values, filter_map, comp_def]

theorem owner_eq (shaped : Shaped ring) (key : List UInt8) :
    owner ring key = (((route ring key).find? (eligible ring [] (pickLimit ring))).map RingPoint.replicaId).or
      ((ring.readyReplicas.argmin Replica.load).map Replica.id) := by
  cases found : (route ring key).find? (eligible ring [] (pickLimit ring)) with
  | some =>
    obtain ⟨rep, -, -, -, -, isPoint, -, picked⟩ := pick_of_found shaped found
    rw [owner, picked]
    exact congrArg some isPoint
  | none =>
    have walked := pickWalk_eq_find? shaped key []
    rw [found, Option.bind_none] at walked
    rw [owner, pickExcluding_eq, walked, leastLoaded_nil]
    split
    · next nobody =>
      have noneReady : ring.readyReplicas = [] := by
        -- No points, no members.
        rcases nobody with noPoints | noReady
        · refine filter_eq_nil_iff.mpr ?_
          intro rep mem
          obtain ⟨⟨_, _⟩, isItem, rfl⟩ := mem_map.mp mem
          obtain ⟨_, isPoint, -⟩ := shaped.exists_point (get?_eq_some.mpr isItem)
          rw [noPoints] at isPoint
          cases isPoint
        · exact length_eq_zero_iff.mp noReady
      rw [noneReady]
      rfl
    · simp only [Option.map_map, Option.map_none, Option.none_or]
      rfl

theorem eligible_unbounded (unbounded : ring.epsilon = .unbounded) :
    eligible ring [] (pickLimit ring) = eligible ring [] 2147483647 := by
  funext point
  rw [pickLimit, unbounded, loadCap]
  split
  · next none =>
    have nobody : ¬eligible ring [] 2147483647 point = true := by
      rw [eligible_iff]
      rintro ⟨rep, present, ready, -⟩
      have mem := mem_readyIds.mpr ⟨rep, present, ready⟩
      rw [← length_readyIds, length_eq_zero_iff] at none
      rw [none] at mem
      cases mem
    rw [Bool.not_eq_true] at nobody
    rw [nobody, ← Bool.not_eq_true, eligible_iff]
    rintro ⟨rep, -, -, -, impossible⟩
    exact Nat.not_lt_zero _ impossible
  · rfl

theorem readyReplicas_eq_filterMap (shaped : Shaped ring) :
    ring.readyReplicas.map (fun rep => (rep.id, rep.load)) =
      ring.replicas.keys.filterMap fun id =>
        match status ring id with
        | some (true, load) => some (id, load)
        | _ => none := by
  have looked : ∀ item ∈ ring.replicas.items, (match status ring item.1 with
      | some (true, load) => some (item.1, load)
      | _ => none) = if item.2.ready then some (item.2.id, item.2.load) else none := by
    intro item mem
    have present := get?_eq_some.mpr mem
    rw [status, present, shaped.ids item.1 item.2 present]
    cases ready : item.2.ready <;> simp [Replica.status, ready]
  rw [Dict.keys, filterMap_map, Ring.readyReplicas, values, filter_map, map_map]
  refine Eq.trans ?_ (filterMap_congr looked).symm
  rw [← filterMap_eq_map, filterMap_filter]
  rfl

theorem owner_congr (shaped : Shaped first) (shapedToo : Shaped second) (epsilons : first.epsilon = second.epsilon)
    (points : first.points = second.points) (keys : first.replicas.keys = second.replicas.keys)
    (same : ∀ id, status first id = status second id) (key : List UInt8) : owner first key = owner second key := by
  have least (ring : Ring) : (ring.readyReplicas.argmin Replica.load).map Replica.id =
      ((ring.readyReplicas.map fun rep => (rep.id, rep.load)).argmin Prod.snd).map Prod.fst := by
    rw [argmin_map, Option.map_map]
    rfl
  have alike : first.readyReplicas.map (fun rep => (rep.id, rep.load)) =
      second.readyReplicas.map fun rep => (rep.id, rep.load) := by
    rw [readyReplicas_eq_filterMap shaped, readyReplicas_eq_filterMap shapedToo, keys, funext same]
  rw [owner_eq shaped, owner_eq shapedToo, eligible_eq same, pickLimit_eq same epsilons, route, points, ← route, least,
    least, alike]

structure Lacks (id : String) (small big : Ring) : Prop where
  shaped : Shaped small
  shapedToo : Shaped big
  unbounded : small.epsilon = .unbounded
  unboundedToo : big.epsilon = .unbounded
  others : small.replicas.erase id = big.replicas.erase id
  points : small.points.filter (fun point => point.replicaId ≠ id) = big.points.filter fun point => point.replicaId ≠ id
  idle : ∀ replica, small.replicas.get? id = some replica → replica.ready = false

theorem readyReplicas_erase (shaped : Shaped ring) (id : String) :
    (ring.replicas.erase id).values.filter Replica.ready =
      ring.readyReplicas.filter fun rep => rep.id ≠ id := by
  simp only [Ring.readyReplicas, values, erase, filter_map, filter_filter]
  congr 1
  apply filter_congr
  intro item mem
  have same := shaped.ids item.1 item.2 (get?_eq_some.mpr mem)
  simp only [comp_apply, same, Bool.and_comm]

namespace Lacks

variable {small big : Ring} (lacks : Lacks id small big)
include lacks

theorem eligible_small (point : RingPoint) :
    eligible small [] 2147483647 point =
      decide ((decide (point.replicaId ≠ id)) = true ∧ eligible big [] 2147483647 point = true) := by
  by_cases same : point.replicaId = id
  · have no : ¬eligible small [] 2147483647 point = true := by
      rw [eligible_iff]
      rintro ⟨rep, present, ready, -⟩
      rw [same] at present
      rw [lacks.idle rep present] at ready
      cases ready
    simp [same, no]
  · have lookups := congrArg (fun dict => get? dict point.replicaId) lacks.others
    simp only [get?_erase, same, if_false] at lookups
    simp [eligible, same, lookups]

theorem route_small (key : List UInt8) :
    (route small key).filter (fun point => point.replicaId ≠ id) =
      (route big key).filter fun point => point.replicaId ≠ id := by
  rw [route, route, ← clockwise_filter, ← clockwise_filter, lacks.points]

theorem find?_small (key : List UInt8) :
    (route small key).find? (eligible small [] 2147483647) =
      ((route big key).filter fun point => point.replicaId ≠ id).find? (eligible big [] 2147483647) := by
  have kept : (route small key).find? (eligible small [] 2147483647) =
      ((route small key).filter fun point => point.replicaId ≠ id).find? (eligible big [] 2147483647) := by
    rw [find?_filter]
    exact congrArg (fun kind => (route small key).find? kind) (funext lacks.eligible_small)
  rw [kept, lacks.route_small]

theorem readyReplicas_small : small.readyReplicas = big.readyReplicas.filter fun rep => rep.id ≠ id := by
  rw [← readyReplicas_erase lacks.shapedToo, ← lacks.others, readyReplicas_erase lacks.shaped]
  refine (filter_eq_self.mpr ?_).symm
  intro rep mem
  obtain ⟨isMember, ready⟩ := mem_filter.mp mem
  obtain ⟨⟨key, _⟩, isItem, rfl⟩ := mem_map.mp isMember
  have present := get?_eq_some.mpr isItem
  have isKey := lacks.shaped.ids key _ present
  rw [decide_eq_true_eq, isKey]
  rintro rfl
  rw [lacks.idle _ present] at ready
  cases ready

theorem owner_eq_of_ne {key : List UInt8} (differs : owner big key ≠ some id) : owner small key = owner big key := by
  rw [owner_eq lacks.shapedToo, eligible_unbounded lacks.unboundedToo] at differs ⊢
  rw [owner_eq lacks.shaped, eligible_unbounded lacks.unbounded, lacks.find?_small, lacks.readyReplicas_small]
  cases found : (route big key).find? (eligible big [] 2147483647) with
  | some point =>
    -- The point is not one of the replica's, so it is still the first.
    rw [found] at differs
    have kept : point.replicaId ≠ id := fun same => differs (congrArg some same)
    rw [find?_filter_of_kept found (decide_eq_true kept)]
    rfl
  | none =>
    have noneLeft : ((route big key).filter fun point => point.replicaId ≠ id).find? (eligible big [] 2147483647) =
        none :=
      find?_eq_none.mpr fun point mem => find?_eq_none.mp found point (mem_filter.mp mem).1
    -- Both fall back on the least load, and the order of the others is the same.
    rw [noneLeft, Option.map_none, Option.none_or, Option.none_or]
    rw [found, Option.map_none, Option.none_or] at differs
    cases least : big.readyReplicas.argmin Replica.load with
    | none => rw [argmin_eq_none.mp least, filter_nil, argmin_nil]
    | some rep =>
      rw [least] at differs
      have kept : rep.id ≠ id := fun same => differs (congrArg some same)
      rw [argmin_filter_of_kept least (decide_eq_true kept)]

end Lacks

/-! ## Joining, leaving and coming back -/

theorem erase_add (ring : Ring) (id addr : String) :
    (ring.add id addr).replicas.erase id = ring.replicas.erase id := by
  unfold Ring.add
  split <;> exact erase_set _ _ _

theorem erase_setReady (ring : Ring) (id : String) (ready : Bool) :
    (ring.setReady id ready).replicas.erase id = ring.replicas.erase id := by
  unfold Ring.setReady
  split
  · rfl
  · exact erase_set _ _ _

theorem points_setReady (ring : Ring) (id : String) (ready : Bool) : (ring.setReady id ready).points = ring.points := by
  unfold Ring.setReady
  split <;> rfl

section Unbounded

variable (shaped : Shaped ring) (unbounded : ring.epsilon = .unbounded)
include shaped unbounded

theorem lacks_setReady (id : String) : Lacks id (ring.setReady id false) ring where
  shaped := shaped.setReady id false
  shapedToo := shaped
  unbounded := (call_settings ring (.setReady id false)).2.trans unbounded
  unboundedToo := unbounded
  others := erase_setReady ring id false
  points := by rw [points_setReady]
  idle rep present := by
    rw [get?_setReady, if_pos rfl] at present
    obtain ⟨_, -, rfl⟩ := Option.map_eq_some_iff.mp present
    rfl

theorem lacks_remove (id : String) : Lacks id (ring.remove id) ring where
  shaped := shaped.remove id
  shapedToo := shaped
  unbounded := (call_settings ring (.remove id)).2.trans unbounded
  unboundedToo := unbounded
  others := by
    unfold Ring.remove
    split
    · rfl
    · simp [erase]
  points := by
    unfold Ring.remove
    split
    · rfl
    · simp
  idle rep present := by
    rw [get?_remove, if_pos rfl] at present
    cases present

theorem lacks_joined (addr : String) (distinct : (ring.points.map RingPoint.hash).Nodup)
    (idle : ∀ rep, ring.replicas.get? id = some rep → rep.ready = false) :
    Lacks id ring ((ring.add id addr).setReady id true) where
  shaped := shaped
  shapedToo := (shaped.add id addr).setReady id true
  unbounded := unbounded
  unboundedToo :=
    (call_settings _ (.setReady id true)).2.trans ((call_settings ring (.add id addr)).2.trans unbounded)
  others := by rw [erase_setReady, erase_add]
  points := by
    rw [points_setReady]
    -- Sorting the new points in does not change the order of the others: no two hashes are equal.
    have sorted := (shaped.add id addr).sorted.filter fun point => decide (point.replicaId ≠ id)
    have perm : (ring.points.filter fun point => point.replicaId ≠ id).Perm
        ((ring.add id addr).points.filter fun point => point.replicaId ≠ id) := by
      unfold Ring.add
      split
      · exact Perm.refl _
      · have none : (Ring.pointsOf ring.virtualNodes id).filter (fun point => point.replicaId ≠ id) = [] :=
          filter_eq_nil_iff.mpr fun point mem => by simp [replicaId_of_mem_pointsOf mem]
        have kept := (sortPoints_perm (ring.points ++ Ring.pointsOf ring.virtualNodes id)).symm.filter
          fun point => decide (point.replicaId ≠ id)
        rwa [filter_append, none, append_nil] at kept
    exact eq_of_perm_of_sorted perm (shaped.sorted.filter _) sorted
      ((places_nodup distinct).sublist (filter_sublist.map place))
  idle := idle

theorem owner_joined (id addr : String) (distinct : (ring.points.map RingPoint.hash).Nodup) (key : List UInt8) :
    owner ((ring.add id addr).setReady id true) key = owner ring key ∨
      owner ((ring.add id addr).setReady id true) key = some id := by
  by_cases idle : ∀ rep, ring.replicas.get? id = some rep → rep.ready = false
  · have lacks := lacks_joined shaped unbounded addr distinct idle
    by_cases here : owner ((ring.add id addr).setReady id true) key = some id
    · exact .inr here
    · exact .inl (lacks.owner_eq_of_ne here).symm
  · -- It was there and ready, so only its address changes.
    push Not at idle
    obtain ⟨existing, present, ready⟩ := idle
    rw [ne_eq, Bool.not_eq_false] at ready
    have settings := call_settings (ring.add id addr) (.setReady id true)
    refine .inl (owner_congr ((shaped.add id addr).setReady id true) shaped ?_ ?_ ?_ ?_ key)
    · exact settings.2.trans (call_settings ring (.add id addr)).2
    · rw [points_setReady, Ring.add, present]
    · have added : (ring.add id addr).replicas.get? id = some { existing with addr } := by
        rw [get?_add, if_pos rfl, present]
        rfl
      rw [Ring.setReady, added]
      simp only [keys_set_of_present added]
      rw [Ring.add, present]
      exact keys_set_of_present present
    · intro other
      simp only [status, get?_setReady, get?_add, present, if_true]
      split
      · next same => simp [same, present, Replica.status, ready]
      · rfl

theorem owner_restored (addr : String) (distinct : (ring.points.map RingPoint.hash).Nodup) {rep : Replica}
    (present : ring.replicas.get? id = some rep) (ready : rep.ready = true)
    (under : rep.load < 2147483647) (key : List UInt8) :
    owner (((ring.remove id).add id addr).setReady id true) key = owner ring key := by
  have shapedToo := ((shaped.remove id).add id addr).setReady id true
  have removed := call_settings ring (.remove id)
  have added := call_settings (ring.remove id) (.add id addr)
  have marked := call_settings ((ring.remove id).add id addr) (.setReady id true)
  have unboundedToo : (((ring.remove id).add id addr).setReady id true).epsilon = .unbounded :=
    marked.2.trans (added.2.trans (removed.2.trans unbounded))
  have nodes := marked.1.trans (added.1.trans removed.1)
  have lookups (other : String) : (((ring.remove id).add id addr).setReady id true).replicas.get? other =
      if other = id then some { id, addr, ready := true } else ring.replicas.get? other := by
    simp only [get?_setReady, get?_add, get?_remove, if_true]
    split <;> rfl
  have points : ring.points = (((ring.remove id).add id addr).setReady id true).points := by
    refine points_eq ?_ shaped shapedToo nodes.symm distinct
    intro other
    rw [lookups]
    split
    · next same => rw [same, present]; rfl
    · rfl
  have kinds : eligible (((ring.remove id).add id addr).setReady id true) [] 2147483647 =
      eligible ring [] 2147483647 := by
    funext point
    simp only [eligible, lookups]
    -- It comes back with load 0, and had less than the limit.
    by_cases same : point.replicaId = id
    · simp [same, present, ready, under]
    · simp [same]
  obtain ⟨point, found⟩ := exists_found shaped key present ready not_mem_nil under
  rw [owner_eq shaped, owner_eq shapedToo, eligible_unbounded unbounded]
  rw [eligible_unbounded unboundedToo, kinds, route, ← points, ← route, found]
  rfl

end Unbounded

/-- A key moves only to a replica that joins and away from one that leaves. -/
theorem keys_move_with_their_replica (virtualNodes : Nat) (calls : List RingCall) (id addr : String) (key : List UInt8)
    {ring : Ring} (reached : ring = (Ring.new virtualNodes .unbounded).after calls)
    (distinct : ((ring.add id addr).points.map RingPoint.hash).Nodup) :
    (owner ((ring.add id addr).setReady id true) key = owner ring key ∨
        owner ((ring.add id addr).setReady id true) key = some id) ∧
      (owner ring key ≠ some id →
        owner (ring.remove id) key = owner ring key ∧ owner (ring.setReady id false) key = owner ring key) ∧
      ∀ replica, ring.replicas.get? id = some replica → replica.ready = true → replica.load < 2147483647 →
        owner (((ring.remove id).add id addr).setReady id true) key = owner ring key := by
  have shaped : Shaped ring := reached ▸ (Shaped.new virtualNodes _).after calls
  have unbounded : ring.epsilon = .unbounded := by
    rw [reached, (after_settings _ calls).2]
    rfl
  have distinctBefore : (ring.points.map RingPoint.hash).Nodup := by
    unfold Ring.add at distinct
    split at distinct
    · exact distinct
    · have spread := ((sortPoints_perm _).map RingPoint.hash).nodup_iff.mp distinct
      rw [List.map_append] at spread
      exact (List.nodup_append.mp spread).1
  refine ⟨owner_joined shaped unbounded id addr distinctBefore key, ?_, ?_⟩
  · intro elsewhere
    exact ⟨(lacks_remove shaped unbounded id).owner_eq_of_ne elsewhere,
      (lacks_setReady shaped unbounded id).owner_eq_of_ne elsewhere⟩
  · intro replica present ready under
    exact owner_restored shaped unbounded addr distinctBefore present ready under key

theorem keys_move_with_their_replica_orderly :
    owner (((((Ring.new 2 .unbounded).after orderly).remove "a").add "a" "host:3").setReady "a" true) [] =
      owner ((Ring.new 2 .unbounded).after orderly) [] :=
  (keys_move_with_their_replica 2 orderly "a" "host:3" [] rfl (by decide +kernel)).2.2
    { id := "a", addr := "host:1", ready := true } (by decide +kernel) rfl (by decide)

def lone (load : Nat) : Ring where
  virtualNodes := 1
  epsilon := .unbounded
  replicas := empty.set "a" { id := "a", addr := "host:1", load, ready := true }
  points := Ring.pointsOf 1 "a"

theorem get?_lone {load : Nat} {rep : Replica} (present : (lone load).replicas.get? id = some rep) :
    rep = { id := "a", addr := "host:1", load, ready := true } ∧ id = "a" := by
  rw [lone, get?_set] at present
  split at present
  · next same => exact ⟨(Option.some.inj present).symm, same⟩
  · cases present

theorem shaped_lone (load : Nat) : Shaped (lone load) where
  positive := Nat.one_pos
  ids id rep present := by
    obtain ⟨rfl, rfl⟩ := get?_lone present
    rfl
  points := Perm.refl _
  sorted := pairwise_singleton _ _

theorem call_lone (load : Nat) : (lone load).call (.pick [] []) = lone (load + 1) := by
  have somebody : (owner (lone load) []).isSome := by
    have least : (lone load).readyReplicas.argmin Replica.load ≠ none := by
      rw [Ne, argmin_eq_none]
      exact cons_ne_nil _ _
    rw [owner_eq (shaped_lone load), Option.isSome_or, Option.isSome_map, Option.isSome_map,
      Option.isSome_iff_ne_none.mpr least, Bool.or_true]
  rw [owner, Option.isSome_map] at somebody
  obtain ⟨⟨_, _⟩, picked⟩ := Option.isSome_iff_exists.mp somebody
  obtain ⟨_, _, present, -, -, same⟩ := pick_takes (shaped_lone load) picked
  obtain ⟨rfl, rfl⟩ := get?_lone present
  simp only [Ring.call, picked, same]
  rfl

theorem after_picks (load : Nat) : (lone 0).after (replicate load (.pick [] [])) = lone load := by
  induction load with
  | zero => rfl
  | succ load ih =>
    rw [replicate_succ', after_append, ih]
    exact call_lone load

/-- A replica that was not ready, and one with 2147483647 requests in flight. -/
theorem returning_replica_takes_new_keys :
    (∃ ring, ring = (Ring.new 1 .unbounded).after [.add "a" "host:1", .add "b" "host:2", .setReady "b" true] ∧
      (ring.points.map RingPoint.hash).Nodup ∧ owner ring [] = some "b" ∧
      owner (((ring.remove "a").add "a" "host:1").setReady "a" true) [] = some "a") ∧
    ∃ ring, ring = (Ring.new 1 .unbounded).after ([.add "a" "host:1", .setReady "a" true] ++
        List.replicate 2147483647 (.pick [] []) ++ [.add "b" "host:2", .setReady "b" true]) ∧
      (ring.points.map RingPoint.hash).Nodup ∧ owner ring [] = some "b" ∧
      owner (((ring.remove "a").add "a" "host:1").setReady "a" true) [] = some "a" := by
  have full : (Ring.new 1 .unbounded).after ([.add "a" "host:1", .setReady "a" true] ++
      List.replicate 2147483647 (.pick [] []) ++ [.add "b" "host:2", .setReady "b" true]) =
      (lone 2147483647).after [.add "b" "host:2", .setReady "b" true] := by
    have start : (Ring.new 1 .unbounded).after [.add "a" "host:1", .setReady "a" true] = lone 0 := rfl
    rw [after_append, after_append, start, after_picks]
  refine ⟨⟨_, rfl, ?_⟩, _, full.symm, ?_⟩
  · decide +kernel
  · decide +kernel

end Nanoserve.Verified
