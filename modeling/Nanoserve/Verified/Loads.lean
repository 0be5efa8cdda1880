import Mathlib.Algebra.Order.BigOperators.Group.List
import Mathlib.Tactic.Linarith
import Nanoserve.Lib.Runs
import Nanoserve.Verified.Ring

/-! # Loads

`Replica.Load` is meant to be the number of requests in flight on a replica.
-/

namespace Nanoserve.Verified

open Lib Router Dict List

variable {books next : Books}

/-! ## Requests in flight -/

/-- A ring and the ids of the picks that were not released. -/
structure Books where
  ring : Ring
  inFlight : List String := []

/-- A call, where only picks that were made are released. -/
def Books.call (books : Books) : RingCall → Except Unit Books
  | .pick key exclude =>
    match books.ring.pickExcluding key exclude with
    | none => .ok books
    | some (replica, ring) => .ok { ring, inFlight := books.inFlight ++ [replica.id] }
  | .release id =>
    if id ∈ books.inFlight then .ok { ring := books.ring.release id, inFlight := books.inFlight.erase id }
    else .error ()
  | other => .ok { books with ring := books.ring.call other }

def Exact (books : Books) : Prop :=
  ∀ id replica, books.ring.replicas.get? id = some replica → replica.load = books.inFlight.count id

/-- Who is new on the ring has nothing in flight. -/
def AddsIdle (books : Books) : RingCall → Prop
  | .add id _ => books.ring.replicas.get? id = none → id ∉ books.inFlight
  | _ => True

instance (books : Books) : Decidable (Exact books) :=
  decidable_of_iff (∀ item ∈ books.ring.replicas.items, item.2.load = books.inFlight.count item.1) (by
    simp only [Exact, get?_eq_some, Prod.forall])

instance (books : Books) : (call : RingCall) → Decidable (AddsIdle books call)
  | .add id _ => inferInstanceAs (Decidable (books.ring.replicas.get? id = none → id ∉ books.inFlight))
  | .remove _ => .isTrue trivial
  | .setReady _ _ => .isTrue trivial
  | .pick _ _ => .isTrue trivial
  | .release _ => .isTrue trivial
  | .reorder _ => .isTrue trivial

section

variable (counted : Exact books)
include counted

theorem exact_add (id addr : String) : Exact { books with ring := books.ring.add id addr } ↔
      (books.ring.replicas.get? id = none → id ∉ books.inFlight) := by
  constructor
  · -- A new record says 0.
    intro still absent
    have none := still id { id, addr } (by simp only [get?_add, absent, if_true]; rfl)
    exact count_eq_zero.mp none.symm
  · intro idle other rep
    simp only [get?_add]
    split
    · next same =>
      subst same
      rintro ⟨⟩
      cases present : books.ring.replicas.get? other with
      | none => exact (count_eq_zero.mpr (idle present)).symm
      | some existing => exact counted other existing present
    · exact counted other rep

theorem exact_remove (id : String) : Exact { books with ring := books.ring.remove id } := by
  intro other rep
  simp only [get?_remove]
  split
  · nofun
  · exact counted other rep

theorem exact_setReady (id : String) (ready : Bool) :
    Exact { books with ring := books.ring.setReady id ready } := by
  intro other rep
  simp only [get?_setReady]
  split
  · next same =>
    subst same
    rintro changed
    obtain ⟨before, present, rfl⟩ := Option.map_eq_some_iff.mp changed
    exact counted other before present
  · exact counted other rep

theorem exact_reorder (id : String) : Exact { books with ring := books.ring.reorder id } := by
  intro other rep
  simp only [get?_reorder]
  exact counted other rep

theorem exact_release (id : String) :
    Exact { ring := books.ring.release id, inFlight := books.inFlight.erase id } := by
  intro other rep
  simp only [get?_release]
  split
  · next same =>
    subst same
    intro changed
    obtain ⟨before, present, rfl⟩ := Option.map_eq_some_iff.mp changed
    rw [count_erase_self, ← counted other before present]
  · next differs =>
    rw [count_erase_of_ne differs]
    exact counted other rep

end

theorem exact_pick (shaped : Shaped books.ring) (counted : Exact books) {key : List UInt8} {exclude : List String}
    {taken : Replica} {ring : Ring} (picked : books.ring.pickExcluding key exclude = some (taken, ring)) :
    Exact { ring, inFlight := books.inFlight ++ [taken.id] } := by
  obtain ⟨id, before, present, -, -, same⟩ := pick_takes shaped picked
  obtain rfl : before.id = id := shaped.ids id before present
  obtain ⟨rfl, rfl⟩ := Prod.mk.inj same
  intro other rep
  simp only [get?_set]
  split
  · next same =>
    subst same
    rintro ⟨⟩
    simp [counted _ before present]
  · next differs =>
    have none : [before.id].count other = 0 := count_eq_zero.mpr (by simpa using differs)
    rw [count_append, none, Nat.add_zero]
    exact counted other rep

theorem Books.call_ring {call : RingCall} (called : books.call call = .ok next) :
    next.ring = books.ring.call call := by
  cases call with
  | add | remove | setReady | reorder =>
    cases called
    rfl
  | release =>
    simp only [Books.call] at called
    split at called
    · cases called
      rfl
    · cases called
  | pick key exclude =>
    simp only [Books.call] at called
    simp only [Ring.call]
    cases picked : books.ring.pickExcluding key exclude with
    | none =>
      rw [picked] at called
      cases called
      rfl
    | some =>
      rw [picked] at called
      cases called
      rfl

theorem Books.call_shaped {call : RingCall} (shaped : Shaped books.ring) (called : books.call call = .ok next) :
    Shaped next.ring := by
  rw [Books.call_ring called]
  exact shaped.call call

theorem exact_call {call : RingCall} (shaped : Shaped books.ring) (counted : Exact books)
    (called : books.call call = .ok next) : Exact next ↔ AddsIdle books call := by
  cases call with
  | add id addr =>
    cases called
    exact exact_add counted id addr
  | remove id =>
    cases called
    exact iff_of_true (exact_remove counted id) trivial
  | setReady id ready =>
    cases called
    exact iff_of_true (exact_setReady counted id ready) trivial
  | reorder id =>
    cases called
    exact iff_of_true (exact_reorder counted id) trivial
  | release id =>
    simp only [Books.call] at called
    split at called
    · cases called
      exact iff_of_true (exact_release counted id) trivial
    · cases called
  | pick key exclude =>
    simp only [Books.call] at called
    cases picked : books.ring.pickExcluding key exclude with
    | none =>
      rw [picked] at called
      cases called
      exact iff_of_true counted trivial
    | some =>
      rw [picked] at called
      cases called
      exact iff_of_true (exact_pick shaped counted picked) trivial

/-- The loads are exact as long as every replica that joins has nothing in flight. -/
theorem loads_count_in_flight (virtualNodes : Nat) (epsilon : Epsilon) (calls : List RingCall) {books : Books}
    (ran : run Books.call { ring := Ring.new virtualNodes epsilon } calls = .ok books) :
    (Along Books.call AddsIdle { ring := Ring.new virtualNodes epsilon } calls → Exact books) ∧
      (Exact books → ∀ call next, books.call call = .ok next → (Exact next ↔ AddsIdle books call)) := by
  have shapedOnly : ∀ state call next, Shaped (Books.ring state) → True → state.call call = .ok next →
      Shaped next.ring := fun _ _ _ shaped _ called => Books.call_shaped shaped called
  have both : ∀ state call next, Shaped (Books.ring state) ∧ Exact state → AddsIdle state call →
      state.call call = .ok next → Shaped next.ring ∧ Exact next :=
    fun _ _ _ held idle called => ⟨Books.call_shaped held.1 called, (exact_call held.1 held.2 called).mpr idle⟩
  have shaped : Shaped books.ring :=
    run_preserves shapedOnly (Shaped.new virtualNodes epsilon) (along_trivial (fun _ _ => trivial) calls _) ran
  refine ⟨?_, fun counted call next => exact_call shaped counted⟩
  intro along
  have start : Exact { ring := Ring.new virtualNodes epsilon } := by
    intro id replica present
    simp [Ring.new] at present
  exact (run_preserves both ⟨Shaped.new virtualNodes epsilon, start⟩ along ran).2

/-- A replica that leaves and comes back between its requests. -/
def visits : List RingCall :=
  [.add "a" "host:1", .setReady "a" true, .pick [] [], .release "a", .remove "a", .add "a" "host:2",
    .setReady "a" true, .pick [] []]

theorem loads_count_in_flight_visits :
    Yields (run Books.call { ring := Ring.new 1 (.finite (1 / 4)) } visits) Exact ∧
      Along Books.call AddsIdle { ring := Ring.new 1 (.finite (1 / 4)) } visits := by
  have along : Along Books.call AddsIdle { ring := Ring.new 1 (.finite (1 / 4)) } visits := by decide +kernel
  have ran : Yields (run Books.call { ring := Ring.new 1 (.finite (1 / 4)) } visits) fun _ => True := by decide +kernel
  obtain ⟨books, ran, -⟩ := ran
  exact ⟨⟨books, ran, (loads_count_in_flight 1 (.finite (1 / 4)) visits ran).1 along⟩, along⟩

/-- It comes back while a request of its earlier registration is in flight, with a load of 0. -/
theorem reregistered_load_is_lost :
    Yields (run Books.call { ring := Ring.new 1 (.finite (1 / 4)) }
      [.add "a" "host:1", .setReady "a" true, .pick [] [], .remove "a", .add "a" "host:1"]) fun books =>
        books.inFlight = ["a"] ∧ books.ring.replicas.get? "a" = some { id := "a", addr := "host:1" } ∧
          ¬Exact books := by
  decide +kernel

/-! ## The bound -/

theorem ceilDiv_eq_ceil (a b : Rat) : Router.ceilDiv a b = ⌈a / b⌉ := by
  unfold Router.ceilDiv
  split
  · next whole =>
    rw [whole]
    simp
  · next broken =>
    refine ((Int.ceil_eq_floor_add_one_iff_notMem _).mpr ?_).symm
    rintro ⟨whole, same⟩
    rw [← same, Int.floor_intCast] at broken
    exact broken rfl

theorem loadCap_eq_ceil {total n : Nat} (some : n ≠ 0) (epsilon : Rat) :
    loadCap total n (.finite epsilon) = max 1 ⌈(1 + epsilon) * total / n⌉₊ := by
  simp only [loadCap, if_neg some, ceilDiv_eq_ceil, Int.ceil_toNat]

theorem le_mul_loadCap {total n : Nat} (some : n ≠ 0) {epsilon : Rat} (nonneg : 0 ≤ epsilon) :
    total ≤ n * loadCap total n (.finite epsilon) := by
  have pos : (0 : Rat) < n := by exact_mod_cast Nat.pos_of_ne_zero some
  have above : (1 + epsilon) * total / n ≤ (loadCap total n (.finite epsilon) : Rat) := by
    rw [loadCap_eq_ceil some]
    exact (Nat.le_ceil _).trans (by exact_mod_cast le_max_right 1 _)
  have more : (total : Rat) ≤ (1 + epsilon) * total := by
    have extra : 0 ≤ epsilon * total := mul_nonneg nonneg (Nat.cast_nonneg total)
    linarith
  have scaled := (div_le_iff₀ pos).mp above
  have together : (total : Rat) ≤ n * loadCap total n (.finite epsilon) := by linarith
  exact_mod_cast together

theorem exists_under_limit {ring : Ring} {epsilon : Rat} (bounded : ring.epsilon = .finite epsilon)
    (nonneg : 0 ≤ epsilon) (somebody : ring.readyReplicas ≠ []) :
    ∃ rep ∈ ring.readyReplicas, rep.load < pickLimit ring := by
  by_contra! full
  -- The loads would add up to more than they do.
  have some := fun none => somebody (length_eq_zero_iff.mp none)
  have filled := card_nsmul_le_sum (ring.readyReplicas.map Replica.load) (pickLimit ring) (by
    intro load mem
    obtain ⟨rep, isReady, rfl⟩ := mem_map.mp mem
    exact full rep isReady)
  have room := @le_mul_loadCap ((ring.readyReplicas.map Replica.load).sum + 1) _ some epsilon nonneg
  rw [← bounded, ← pickLimit] at room
  rw [length_map, nsmul_eq_mul, Nat.cast_id] at filled
  omega

theorem take_ready {ring : Ring} (shaped : Shaped ring) {id : String} {rep : Replica}
    (present : ring.replicas.get? id = some rep) (ready : rep.ready = true) :
    (ring.take rep).2.readyReplicas.length = ring.readyReplicas.length ∧
      ((ring.take rep).2.readyReplicas.map Replica.load).sum = (ring.readyReplicas.map Replica.load).sum + 1 := by
  obtain rfl : rep.id = id := shaped.ids id rep present
  -- Both rings are the others and this one.
  have before : ring.readyReplicas.Perm (rep :: (ring.replicas.erase rep.id).values.filter Replica.ready) := by
    have items := (items_perm_erase (get?_eq_some.mp present)).map Prod.snd
    have kept := items.filter Replica.ready
    rwa [map_cons, filter_cons_of_pos ready] at kept
  have after : (ring.take rep).2.readyReplicas.Perm
      ({ rep with load := rep.load + 1 } :: (ring.replicas.erase rep.id).values.filter Replica.ready) := by
    have items := (@items_perm_set _ _ _ ring.replicas rep.id
      { rep with load := rep.load + 1 }).map Prod.snd
    have kept := items.filter Replica.ready
    rwa [map_cons, filter_cons_of_pos (by exact ready)] at kept
  refine ⟨?_, ?_⟩
  · rw [before.length_eq, after.length_eq, length_cons, length_cons]
  · rw [(before.map Replica.load).sum_eq, (after.map Replica.load).sum_eq, map_cons, map_cons, sum_cons,
      sum_cons, Nat.add_right_comm]

/-- How far clockwise from the hash of the key a point is. -/
def ahead (key : List UInt8) (point : RingPoint) : Nat := distance (2 ^ 64) (hashKey key).toNat (place point)

theorem route_pairwise {ring : Ring} (shaped : Shaped ring) (key : List UInt8) :
    (route ring key).Pairwise fun first second => ahead key first ≤ ahead key second :=
  clockwise_pairwise shaped.sorted (hashKey key).toNat_lt fun point _ => point.hash.toNat_lt

/-- A pick of a ring with a finite bound ends on the nearest ready replica under
the bound and leaves it within the bound. -/
theorem pick_keeps_the_bound (virtualNodes : Nat) {epsilon : Rat} (nonneg : 0 ≤ epsilon) (calls : List RingCall)
    (key : List UInt8) {ring : Ring} (reached : ring = (Ring.new virtualNodes (.finite epsilon)).after calls)
    (somebody : ring.readyReplicas ≠ []) :
    ∃ point ∈ ring.points, ∃ replica, ring.replicas.get? point.replicaId = some replica ∧
      pickWalk ring key [] = some replica ∧ ring.pickExcluding key [] = some (ring.take replica) ∧
      replica.ready = true ∧ replica.load < pickLimit ring ∧
      (∀ other ∈ ring.points, ∀ rival, ring.replicas.get? other.replicaId = some rival → rival.ready = true →
        rival.load < pickLimit ring → ahead key point ≤ ahead key other) ∧
      let next := (ring.take replica).2
      (ring.take replica).1.load ≤
        max 1 ⌈(1 + epsilon) * (next.readyReplicas.map Replica.load).sum / next.readyReplicas.length⌉₊ := by
  have shaped : Shaped ring := reached ▸ (Shaped.new virtualNodes _).after calls
  have bounded : ring.epsilon = .finite epsilon := by
    rw [reached, (after_settings _ calls).2]
    simp [Ring.new, not_lt.mpr nonneg]
  -- Somebody is under the bound, so the walk finds a point.
  obtain ⟨free, isReady, under⟩ := exists_under_limit bounded nonneg somebody
  obtain ⟨isMember, freeReady⟩ := List.mem_filter.mp isReady
  obtain ⟨⟨id, _⟩, isItem, rfl⟩ := List.mem_map.mp isMember
  obtain ⟨point, found⟩ := exists_found shaped key (Dict.get?_eq_some.mpr isItem) freeReady (List.not_mem_nil) under
  obtain ⟨replica, present, ready, -, fits, -, walked, picked⟩ := pick_of_found shaped found
  refine ⟨point, mem_clockwise.mp (List.mem_of_find?_eq_some found), replica, present, walked, picked, ready, fits,
    ?_, ?_⟩
  · intro other member rival rivalPresent rivalReady rivalUnder
    exact find?_least (route_pairwise shaped key) found (mem_clockwise.mpr member)
      (eligible_iff.mpr ⟨rival, rivalPresent, rivalReady, List.not_mem_nil, rivalUnder⟩)
  · obtain ⟨sameCount, oneMore⟩ := take_ready shaped present ready
    have some := fun none => somebody (List.length_eq_zero_iff.mp none)
    simp only [sameCount, oneMore]
    rw [← loadCap_eq_ceil some, ← bounded]
    exact fits

/-- Two replicas, one of them in use. -/
def twoReplicas : List RingCall :=
  [.add "a" "host:1", .add "b" "host:2", .setReady "a" true, .setReady "b" true, .pick [] []]

theorem pick_keeps_the_bound_two :
    ((Ring.new 1 (.finite (1 / 4))).after twoReplicas).readyReplicas ≠ [] ∧
      ∃ replica, pickWalk ((Ring.new 1 (.finite (1 / 4))).after twoReplicas) [] [] = some replica := by
  have somebody : ((Ring.new 1 (.finite (1 / 4))).after twoReplicas).readyReplicas ≠ [] := by decide +kernel
  obtain ⟨point, -, replica, -, walked, -⟩ := pick_keeps_the_bound 1 (by decide +kernel) twoReplicas [] rfl somebody
  exact ⟨somebody, replica, walked⟩

end Nanoserve.Verified
