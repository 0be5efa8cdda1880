import Nanoserve.Lib.Circle
import Nanoserve.Router.Ring

/-! # What a ring looks like and what a pick finds

`Shaped` holds of every ring that calls can build.
-/

namespace Nanoserve.Verified

open Lib Router Dict List

variable {id : String} {point : RingPoint} {rep : Replica} {exclude seen : List String} {limit : Nat}
  {key : List UInt8}
variable {ring : Ring}

/-! ## The shape of a ring -/

structure Shaped (ring : Ring) : Prop where
  positive : 0 < ring.virtualNodes
  ids : ∀ id replica, ring.replicas.get? id = some replica → replica.id = id
  points : ring.points.Perm (ring.replicas.keys.flatMap (Ring.pointsOf ring.virtualNodes))
  sorted : ring.points.Pairwise fun first second => first.hash.toNat ≤ second.hash.toNat

theorem sortPoints_perm (points : List RingPoint) : (Ring.sortPoints points).Perm points := by
  exact perm_insertionSort _ _

theorem sortPoints_sorted (points : List RingPoint) :
    (Ring.sortPoints points).Pairwise fun first second => first.hash.toNat ≤ second.hash.toNat := by
  exact (pairwise_insertionSort _ points).imp UInt64.le_iff_toNat_le.mp

theorem replicaId_of_mem_pointsOf {virtualNodes : Nat} (mem : point ∈ Ring.pointsOf virtualNodes id) :
    point.replicaId = id := by
  obtain ⟨_, -, rfl⟩ := mem_map.mp mem
  rfl

theorem flatMap_pointsOf_filter (virtualNodes : Nat) (keep : String → Bool) (ids : List String) :
    (ids.flatMap (Ring.pointsOf virtualNodes)).filter (fun point => keep point.replicaId) =
      (ids.filter keep).flatMap (Ring.pointsOf virtualNodes) := by
  induction ids with
  | nil => rfl
  | cons id _ ih =>
    rw [flatMap_cons, filter_append, ih]
    cases kept : keep id with
    | false =>
      have none : (Ring.pointsOf virtualNodes id).filter (fun point => keep point.replicaId) = [] :=
        filter_eq_nil_iff.mpr fun point mem => by simp [replicaId_of_mem_pointsOf mem, kept]
      rw [none, filter_cons_of_neg (by simp [kept]), nil_append]
    | true =>
      have all : (Ring.pointsOf virtualNodes id).filter (fun point => keep point.replicaId) =
          Ring.pointsOf virtualNodes id :=
        filter_eq_self.mpr fun point mem => by simp [replicaId_of_mem_pointsOf mem, kept]
      rw [all, filter_cons_of_pos kept, flatMap_cons]

theorem get?_reorder (ring : Ring) (id : String) : (ring.reorder id).replicas.get? = ring.replicas.get? := by
  funext other
  unfold Ring.reorder
  cases present : ring.replicas.get? id with
  | none => rfl
  | some =>
    rw [get?_set, get?_erase]
    split
    · next here =>
      rw [here, present]
    · rfl

namespace Shaped

theorem new (virtualNodes : Nat) (epsilon : Epsilon) : Shaped (Ring.new virtualNodes epsilon) where
  positive := by
    simp only [Ring.new]
    split <;> omega
  ids id rep present := by simp [Ring.new] at present
  points := Perm.refl _
  sorted := List.Pairwise.nil

section

variable (shaped : Shaped ring)
include shaped

theorem replace {next : Replica} (present : ring.replicas.get? id = some rep)
    (same : next.id = id) : Shaped { ring with replicas := ring.replicas.set id next } where
  positive := shaped.positive
  ids other found := by
    rw [get?_set]
    split
    · next here =>
      rintro ⟨⟩
      exact same.trans here.symm
    · exact shaped.ids other found
  points := by
    rw [keys_set_of_present present]
    exact shaped.points
  sorted := shaped.sorted

theorem add (id addr : String) : Shaped (ring.add id addr) := by
  unfold Ring.add
  cases present : ring.replicas.get? id with
  | some existing => exact shaped.replace present (shaped.ids id existing present)
  | none =>
    refine ⟨shaped.positive, ?_, ?_, sortPoints_sorted _⟩
    · intro other found
      rw [get?_set]
      split
      · next here =>
        rintro ⟨⟩
        exact here.symm
      · exact shaped.ids other found
    · rw [keys_set_of_absent present, flatMap_append, flatMap_singleton]
      exact (sortPoints_perm _).trans (shaped.points.append_right _)

theorem remove (id : String) : Shaped (ring.remove id) := by
  unfold Ring.remove
  cases present : ring.replicas.get? id with
  | none => exact shaped
  | some =>
    refine ⟨shaped.positive, ?_, ?_, shaped.sorted.filter _⟩
    · intro other found
      rw [get?_erase]
      split
      · intro gone
        cases gone
      · exact shaped.ids other found
    · rw [keys_erase, ← flatMap_pointsOf_filter _ fun other => decide (other ≠ id)]
      exact shaped.points.filter _

theorem setReady (id : String) (ready : Bool) : Shaped (ring.setReady id ready) := by
  unfold Ring.setReady
  cases present : ring.replicas.get? id with
  | none => exact shaped
  | some rep => exact shaped.replace present (shaped.ids id rep present)

theorem release (id : String) : Shaped (ring.release id) := by
  unfold Ring.release
  cases present : ring.replicas.get? id with
  | none => exact shaped
  | some rep => exact shaped.replace present (shaped.ids id rep present)

theorem reorder (id : String) : Shaped (ring.reorder id) := by
  have same := get?_reorder ring id
  unfold Ring.reorder at same ⊢
  cases present : ring.replicas.get? id with
  | none => exact shaped
  | some rep =>
    simp only [present] at same
    have absent : (ring.replicas.erase id).get? id = none := by rw [get?_erase, if_pos rfl]
    have before : ring.replicas.keys.Perm (id :: (ring.replicas.erase id).keys) :=
      (items_perm_erase (get?_eq_some.mp present)).map Prod.fst
    refine ⟨shaped.positive, ?_, shaped.points.trans (Perm.flatMap_right _ ?_), shaped.sorted⟩
    · rw [same]
      exact shaped.ids
    · rw [keys_set_of_absent absent]
      exact before.trans (perm_append_singleton id _).symm

theorem take (present : ring.replicas.get? id = some rep) :
    Shaped (ring.take rep).2 := by
  have same := shaped.ids id rep present
  subst same
  exact shaped.replace present rfl

end

end Shaped

theorem get?_add (ring : Ring) (id addr other : String) :
    (ring.add id addr).replicas.get? other =
      if other = id then some (((ring.replicas.get? id).map fun rep => { rep with addr }).getD { id, addr })
      else ring.replicas.get? other := by
  unfold Ring.add
  cases present : ring.replicas.get? id with
  | none => exact get?_set _ _ _ _
  | some => exact get?_set _ _ _ _

theorem get?_remove (ring : Ring) (id other : String) :
    (ring.remove id).replicas.get? other = if other = id then none else ring.replicas.get? other := by
  unfold Ring.remove
  cases present : ring.replicas.get? id with
  | none =>
    by_cases same : other = id
    · simp only [same, present, if_true]
    · simp only [same, if_false]
  | some => exact get?_erase _ _ _

theorem get?_setReady (ring : Ring) (id other : String) (ready : Bool) :
    (ring.setReady id ready).replicas.get? other =
      if other = id then (ring.replicas.get? id).map fun rep => { rep with ready }
      else ring.replicas.get? other := by
  unfold Ring.setReady
  cases present : ring.replicas.get? id with
  | none =>
    by_cases same : other = id
    · simp only [same, present, if_true, Option.map_none]
    · simp only [same, if_false]
  | some => exact get?_set _ _ _ _

theorem get?_release (ring : Ring) (id other : String) :
    (ring.release id).replicas.get? other =
      if other = id then (ring.replicas.get? id).map fun rep => { rep with load := rep.load - 1 }
      else ring.replicas.get? other := by
  unfold Ring.release
  cases present : ring.replicas.get? id with
  | none =>
    by_cases same : other = id
    · simp only [same, present, if_true, Option.map_none]
    · simp only [same, if_false]
  | some => exact get?_set _ _ _ _

/-! ## The walk -/

def eligible (ring : Ring) (exclude : List String) (limit : Nat) (point : RingPoint) : Bool :=
  match ring.replicas.get? point.replicaId with
  | none => false
  | some replica => replica.ready && decide (point.replicaId ∉ exclude) && decide (replica.load < limit)

theorem eligible_iff :
    eligible ring exclude limit point = true ↔ ∃ rep, ring.replicas.get? point.replicaId = some rep ∧
      rep.ready = true ∧ point.replicaId ∉ exclude ∧ rep.load < limit := by
  unfold eligible
  cases ring.replicas.get? point.replicaId with
  | none => simp
  | some => simp [and_assoc]

def readyIds (ring : Ring) : List String := (ring.replicas.items.filter fun item => item.2.ready).map Prod.fst

theorem length_readyIds (ring : Ring) : (readyIds ring).length = ring.readyReplicas.length := by
  simp [readyIds, Ring.readyReplicas, values, filter_map, Function.comp_def]

theorem mem_readyIds :
    id ∈ readyIds ring ↔ ∃ rep, ring.replicas.get? id = some rep ∧ rep.ready = true := by
  simp only [readyIds, mem_map, mem_filter, get?_eq_some]
  constructor
  · rintro ⟨⟨_, rep⟩, ⟨mem, ready⟩, rfl⟩
    exact ⟨rep, mem, ready⟩
  · rintro ⟨rep, mem, ready⟩
    exact ⟨(id, rep), ⟨mem, ready⟩, rfl⟩

def SeenOnly (ring : Ring) (exclude : List String) (limit : Nat) (seen : List String) : Prop :=
  seen.Nodup ∧ ∀ id ∈ seen, ∃ replica, ring.replicas.get? id = some replica ∧ replica.ready = true ∧
    (id ∈ exclude ∨ limit ≤ replica.load)

theorem SeenOnly.not_eligible (seenOnly : SeenOnly ring exclude limit seen) (already : point.replicaId ∈ seen) :
    eligible ring exclude limit point = false := by
  obtain ⟨_, present, -, unable⟩ := seenOnly.2 _ already
  rw [← Bool.not_eq_true, eligible_iff]
  rintro ⟨_, foundEq, -, notExcluded, _⟩
  rw [present] at foundEq
  obtain rfl := Option.some.inj foundEq
  rcases unable with excluded | full
  · exact notExcluded excluded
  · omega

theorem SeenOnly.exhausted (seenOnly : SeenOnly ring exclude limit seen)
    (all : ring.readyReplicas.length ≤ seen.length) (point : RingPoint) :
    eligible ring exclude limit point = false := by
  by_cases already : point.replicaId ∈ seen
  · exact seenOnly.not_eligible already
  · rw [← Bool.not_eq_true, eligible_iff]
    rintro ⟨rep, present, ready, -⟩
    -- With this one there would be more ready replicas than there are.
    have known : point.replicaId :: seen ⊆ readyIds ring := by
      intro id mem
      rcases mem_cons.mp mem with rfl | inSeen
      · exact mem_readyIds.mpr ⟨rep, present, ready⟩
      · obtain ⟨found, foundEq, foundReady, -⟩ := seenOnly.2 id inSeen
        exact mem_readyIds.mpr ⟨found, foundEq, foundReady⟩
    have bound := (subperm_of_subset (nodup_cons.mpr ⟨already, seenOnly.1⟩) known).length_le
    rw [length_readyIds, length_cons] at bound
    omega

theorem walk_eq_find? (points : List RingPoint) (seenOnly : SeenOnly ring exclude limit seen) :
    ring.walk exclude limit ring.readyReplicas.length seen points =
      (points.find? (eligible ring exclude limit)).bind fun point => ring.replicas.get? point.replicaId := by
  -- On the points that are left; `seen` grows only by replicas that cannot take the request.
  induction points generalizing seen with
  | nil => rfl
  | cons point points ih =>
    rw [Ring.walk]
    by_cases more : seen.length < ring.readyReplicas.length
    · rw [if_pos more]
      by_cases already : point.replicaId ∈ seen
      · rw [if_pos already, ih seenOnly, find?_cons_of_neg]
        rw [seenOnly.not_eligible already]
        exact Bool.false_ne_true
      · rw [if_neg already]
        cases present : ring.replicas.get? point.replicaId with
        | none =>
          have no : eligible ring exclude limit point = false := by simp [eligible, present]
          simp only [find?_cons, no, ih seenOnly]
        | some rep =>
          simp only
          by_cases ready : rep.ready
          · rw [if_neg (not_not.mpr ready)]
            -- From here on the point is seen, whatever else holds of it.
            have grows (unable : point.replicaId ∈ exclude ∨ limit ≤ rep.load) :
                SeenOnly ring exclude limit (point.replicaId :: seen) := by
              refine ⟨nodup_cons.mpr ⟨already, seenOnly.1⟩, ?_⟩
              intro id mem
              rcases mem_cons.mp mem with rfl | inSeen
              · exact ⟨rep, present, ready, unable⟩
              · exact seenOnly.2 id inSeen
            by_cases excluded : point.replicaId ∈ exclude
            · have no := (grows (.inl excluded)).not_eligible (mem_cons_self)
              rw [if_pos excluded, ih (grows (.inl excluded))]
              simp only [find?_cons, no]
            · rw [if_neg excluded]
              by_cases under : rep.load < limit
              · have yes : eligible ring exclude limit point = true :=
                  eligible_iff.mpr ⟨rep, present, ready, excluded, under⟩
                rw [if_pos under, find?_cons_of_pos yes, Option.bind_some, present]
              · have full := Nat.le_of_not_lt under
                have no := (grows (.inr full)).not_eligible (mem_cons_self)
                rw [if_neg under, ih (grows (.inr full))]
                simp only [find?_cons, no]
          · have no : eligible ring exclude limit point = false := by simp [eligible, present, ready]
            rw [if_pos ready, ih seenOnly]
            simp only [find?_cons, no]
    · have none : (point :: points).find? (eligible ring exclude limit) = none :=
        find?_eq_none.mpr fun other _ => by
          rw [seenOnly.exhausted (Nat.le_of_not_lt more) other]
          exact Bool.false_ne_true
      rw [if_neg more, none, Option.bind_none]

/-- Where on the circle a point is. -/
def place (point : RingPoint) : Nat := point.hash.toNat

def route (ring : Ring) (key : List UInt8) : List RingPoint := clockwise place (hashKey key).toNat ring.points

/-- The bound a pick compares loads with. -/
def pickLimit (ring : Ring) : Nat :=
  loadCap ((ring.readyReplicas.map Replica.load).sum + 1) ring.readyReplicas.length ring.epsilon

theorem rotated_eq_route (shaped : Shaped ring) (key : List UInt8) :
    ring.points.drop (ring.search (hashKey key)) ++ ring.points.take (ring.search (hashKey key)) = route ring key := by
  have rotated := @rotation_eq_clockwise RingPoint place ring.points (hashKey key).toNat shaped.sorted
  have sameIndex : ring.points.findIdx (fun point => decide (hashKey key ≤ point.hash)) =
      ring.points.findIdx fun point => decide ((hashKey key).toNat ≤ place point) := by
    rfl
  rw [route, ← rotated, ← sameIndex]
  simp only [Ring.search]
  split
  · next none => simp [none]  -- past the last point it starts at the first
  · rfl

/-- The walk of a pick. -/
def pickWalk (ring : Ring) (key : List UInt8) (exclude : List String) : Option Replica :=
  ring.walk exclude (pickLimit ring) ring.readyReplicas.length []
    (ring.points.drop (ring.search (hashKey key)) ++ ring.points.take (ring.search (hashKey key)))

theorem pickExcluding_eq (ring : Ring) (key : List UInt8) (exclude : List String) :
    ring.pickExcluding key exclude =
      if ring.points = [] ∨ ring.readyReplicas.length = 0 then none
      else
        match pickWalk ring key exclude with
        | some rep => some (ring.take rep)
        | none => (ring.leastLoaded exclude).map ring.take := rfl

theorem pickWalk_eq_find? (shaped : Shaped ring) (key : List UInt8) (exclude : List String) :
    pickWalk ring key exclude =
      ((route ring key).find? (eligible ring exclude (pickLimit ring))).bind fun point =>
        ring.replicas.get? point.replicaId := by
  rw [pickWalk, rotated_eq_route shaped]
  exact walk_eq_find? _ ⟨nodup_nil, nofun⟩

theorem Shaped.exists_point (shaped : Shaped ring) (present : ring.replicas.get? id = some rep) :
    ∃ point ∈ ring.points, point.replicaId = id := by
  have mem : id ∈ ring.replicas.keys := Dict.mem_keys.mpr ⟨rep, present⟩
  have point : (⟨hashKey (Model.utf8 (id.toList ++ '#' :: (toString 0).toList)), id⟩ : RingPoint) ∈
      Ring.pointsOf ring.virtualNodes id :=
    mem_map.mpr ⟨0, mem_range.mpr shaped.positive, rfl⟩
  exact ⟨_, shaped.points.symm.subset (mem_flatMap.mpr ⟨id, mem, point⟩), rfl⟩

theorem exists_found (shaped : Shaped ring) (key : List UInt8) (present : ring.replicas.get? id = some rep)
    (ready : rep.ready = true) (notExcluded : id ∉ exclude) (under : rep.load < limit) :
    ∃ point, (route ring key).find? (eligible ring exclude limit) = some point := by
  obtain ⟨point, mem, rfl⟩ := shaped.exists_point present
  have yes := eligible_iff.mpr ⟨rep, present, ready, notExcluded, under⟩
  exact Option.isSome_iff_exists.mp (find?_isSome.mpr ⟨point, mem_clockwise.mpr mem, yes⟩)

theorem pick_of_found (shaped : Shaped ring)
    (found : (route ring key).find? (eligible ring exclude (pickLimit ring)) = some point) :
    ∃ rep, ring.replicas.get? point.replicaId = some rep ∧ rep.ready = true ∧ point.replicaId ∉ exclude ∧
      rep.load < pickLimit ring ∧ rep.id = point.replicaId ∧ pickWalk ring key exclude = some rep ∧
      ring.pickExcluding key exclude = some (ring.take rep) := by
  obtain ⟨rep, present, ready, notExcluded, under⟩ := eligible_iff.mp (find?_some found)
  have somewhere : ring.points ≠ [] := by
    have mem := mem_clockwise.mp (mem_of_find?_eq_some found)
    exact ne_nil_of_mem mem
  have somebody : ring.readyReplicas.length ≠ 0 := by
    rw [← length_readyIds]
    exact Nat.ne_of_gt (length_pos_of_mem (mem_readyIds.mpr ⟨rep, present, ready⟩))
  have walked : pickWalk ring key exclude = some rep := by
    rw [pickWalk_eq_find? shaped, found, Option.bind_some, present]
  refine ⟨rep, present, ready, notExcluded, under, shaped.ids _ _ present, walked, ?_⟩
  simp only [pickExcluding_eq, somewhere, somebody, or_self, if_false, walked]

def candidates (ring : Ring) (exclude : List String) : List Replica :=
  (ring.replicas.items.filter fun item => decide (item.1 ∉ exclude) && item.2.ready).map Prod.snd

theorem mem_candidates :
    rep ∈ candidates ring exclude ↔
      ∃ id, ring.replicas.get? id = some rep ∧ id ∉ exclude ∧ rep.ready = true := by
  simp only [candidates, mem_map, mem_filter, Bool.and_eq_true, decide_eq_true_eq, get?_eq_some]
  constructor
  · rintro ⟨⟨id, _⟩, ⟨mem, able⟩, rfl⟩
    exact ⟨id, mem, able⟩
  · rintro ⟨id, mem, able⟩
    exact ⟨(id, rep), ⟨mem, able⟩, rfl⟩

theorem leastLoaded_eq_argmin (ring : Ring) (exclude : List String) :
    ring.leastLoaded exclude = (candidates ring exclude).argmin Replica.load := by
  rw [candidates, argmin, foldl_map, Ring.leastLoaded]
  congr 1
  funext best item
  cases best with
  | none => rfl
  | some => rfl

theorem pick_takes (shaped : Shaped ring) {taken : Replica} {next : Ring}
    (picked : ring.pickExcluding key exclude = some (taken, next)) :
    ∃ id rep, ring.replicas.get? id = some rep ∧ id ∉ exclude ∧ rep.ready = true ∧
      (taken, next) = ring.take rep := by
  cases found : (route ring key).find? (eligible ring exclude (pickLimit ring)) with
  | some =>
    obtain ⟨rep, present, ready, notExcluded, -, -, -, pickedToo⟩ := pick_of_found shaped found
    rw [picked] at pickedToo
    exact ⟨_, rep, present, notExcluded, ready, Option.some.inj pickedToo⟩
  | none =>
    have walked := pickWalk_eq_find? shaped key exclude
    rw [found, Option.bind_none] at walked
    simp only [pickExcluding_eq, walked] at picked
    split at picked
    · cases picked
    · obtain ⟨rep, least, same⟩ := Option.map_eq_some_iff.mp picked
      rw [leastLoaded_eq_argmin] at least
      obtain ⟨id, present, notExcluded, ready⟩ := mem_candidates.mp (argmin_mem least)
      exact ⟨id, rep, present, notExcluded, ready, same.symm⟩

theorem pick_ready (shaped : Shaped ring) {taken : Replica} {next : Ring}
    (picked : ring.pickExcluding key exclude = some (taken, next)) :
    ∃ rep, ring.replicas.get? taken.id = some rep ∧ rep.ready = true ∧ taken.id ∉ exclude := by
  obtain ⟨id, rep, present, notExcluded, ready, same⟩ := pick_takes shaped picked
  have takenId : taken.id = id := by
    rw [show taken = (ring.take rep).1 from congrArg Prod.fst same]
    exact shaped.ids id rep present
  rw [takenId]
  exact ⟨rep, present, ready, notExcluded⟩

theorem exists_pick_iff (shaped : Shaped ring) (key : List UInt8) (exclude : List String) :
    (∃ result, ring.pickExcluding key exclude = some result) ↔
      ∃ id rep, ring.replicas.get? id = some rep ∧ rep.ready = true ∧ id ∉ exclude := by
  constructor
  · rintro ⟨⟨_, _⟩, picked⟩
    obtain ⟨id, rep, present, notExcluded, ready, -⟩ := pick_takes shaped picked
    exact ⟨id, rep, present, ready, notExcluded⟩
  · rintro ⟨id, rep, present, ready, notExcluded⟩
    have somewhere : ring.points ≠ [] := by
      obtain ⟨_, mem, -⟩ := shaped.exists_point present
      exact ne_nil_of_mem mem
    have somebody : ring.readyReplicas.length ≠ 0 := by
      rw [← length_readyIds]
      exact Nat.ne_of_gt (length_pos_of_mem (mem_readyIds.mpr ⟨rep, present, ready⟩))
    simp only [pickExcluding_eq, somewhere, somebody, or_self, if_false]
    cases pickWalk ring key exclude with
    | some => exact ⟨_, rfl⟩
    | none =>
      have candidate := mem_candidates.mpr ⟨id, present, notExcluded, ready⟩
      rw [leastLoaded_eq_argmin]
      cases least : (candidates ring exclude).argmin Replica.load with
      | none =>
        rw [argmin_eq_none.mp least] at candidate
        cases candidate
      | some => exact ⟨_, rfl⟩

theorem Shaped.call (shaped : Shaped ring) (call : RingCall) : Shaped (ring.call call) := by
  cases call with
  | add id addr => exact shaped.add id addr
  | remove id => exact shaped.remove id
  | setReady id ready => exact shaped.setReady id ready
  | release id => exact shaped.release id
  | reorder id => exact shaped.reorder id
  | pick key exclude =>
    simp only [Ring.call]
    cases picked : ring.pickExcluding key exclude with
    | none => exact shaped
    | some =>
      obtain ⟨id, _, present, -, -, same⟩ := pick_takes shaped picked
      have taken := shaped.take present
      rw [← same] at taken
      exact taken

theorem after_append (ring : Ring) (first second : List RingCall) :
    ring.after (first ++ second) = (ring.after first).after second := foldl_append

theorem Shaped.after (shaped : Shaped ring) (calls : List RingCall) : Shaped (ring.after calls) := by
  induction calls generalizing ring with
  | nil => exact shaped
  | cons call _ ih => exact ih (shaped.call call)

theorem call_settings (ring : Ring) (call : RingCall) :
    (ring.call call).virtualNodes = ring.virtualNodes ∧ (ring.call call).epsilon = ring.epsilon := by
  cases call with
  | add =>
    simp only [Ring.call, Ring.add]
    split <;> exact ⟨rfl, rfl⟩
  | remove =>
    simp only [Ring.call, Ring.remove]
    split <;> exact ⟨rfl, rfl⟩
  | setReady =>
    simp only [Ring.call, Ring.setReady]
    split <;> exact ⟨rfl, rfl⟩
  | release =>
    simp only [Ring.call, Ring.release]
    split <;> exact ⟨rfl, rfl⟩
  | reorder =>
    simp only [Ring.call, Ring.reorder]
    split <;> exact ⟨rfl, rfl⟩
  | pick _ exclude =>
    simp only [Ring.call, Ring.pickExcluding]
    split
    · exact ⟨rfl, rfl⟩
    · split
      · exact ⟨rfl, rfl⟩
      · cases ring.leastLoaded exclude <;> exact ⟨rfl, rfl⟩

theorem after_settings (ring : Ring) (calls : List RingCall) :
    (ring.after calls).virtualNodes = ring.virtualNodes ∧ (ring.after calls).epsilon = ring.epsilon := by
  induction calls generalizing ring with
  | nil => exact ⟨rfl, rfl⟩
  | cons call _ ih =>
    obtain ⟨sameNodes, sameEpsilon⟩ := ih (ring.call call)
    obtain ⟨nodes, epsilon⟩ := call_settings ring call
    exact ⟨sameNodes.trans nodes, sameEpsilon.trans epsilon⟩

end Nanoserve.Verified
