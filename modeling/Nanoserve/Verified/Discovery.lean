import Nanoserve.Lib.Runs
import Nanoserve.Router.Etcd

/-! # What the watch loop publishes

The members map of the watch loop is a reader of etcd's log in the sense of the replay library.
-/

namespace Nanoserve.Verified

open Lib Router Function Dict List
open Model (Text)

variable {history : Revisions} {revision : Nat}

/-- What the registry says of an id at a revision. -/
def registryAt (history : Revisions) (revision : Nat) (id : String) : Option String :=
  contents history revision (registryPrefix ++ id.toList)

/-- The set has what the registry has at the revision. -/
def Shows (history : Revisions) (revision : Nat) (endpoints : List Endpoint) : Prop :=
  ∀ id addr, ⟨id, addr⟩ ∈ endpoints ↔ registryAt history revision id = some addr

theorem mem_endpointsOf {members : Dict String String} {id addr : String} :
    ⟨id, addr⟩ ∈ endpointsOf members ↔ members.get? id = some addr := by
  simp [endpointsOf, get?_eq_some]

theorem shows_endpointsOf {members : Dict String String} (same : members.get? = registryAt history revision) :
    Shows history revision (endpointsOf members) := by
  intro id addr
  rw [mem_endpointsOf, same]

theorem keyToID_append (id : String) : keyToID (registryPrefix ++ id.toList) = id := by
  simp [keyToID, isPrefixOf_iff_prefix]

theorem underPrefix_iff {key : Text} : underPrefix key = true ↔ ∃ id : String, key = registryPrefix ++ id.toList := by
  rw [underPrefix, isPrefixOf_iff_prefix]
  constructor
  · rintro ⟨rest, rfl⟩
    exact ⟨String.ofList rest, by rw [String.toList_ofList]⟩
  · grind

theorem key_eq_iff {key : Text} (under : underPrefix key = true) {id : String} :
    key = registryPrefix ++ id.toList ↔ keyToID key = id := by
  obtain ⟨own, rfl⟩ := underPrefix_iff.mp under
  rw [keyToID_append]
  constructor
  · intro same
    rw [← keyToID_append own, same, keyToID_append]
  · grind

def onIds (update : Update Text String) : Option (Update String String) :=
  if underPrefix update.key then
    match update with
    | .put key value => some (.put (keyToID key) value)
    | .delete key => some (.delete (keyToID key))
  else none

def registryLog (history : Revisions) : List (List (Update String String)) := history.map (filterMap onIds)

theorem length_registryLog (history : Revisions) : (registryLog history).length = history.length := length_map _

theorem registryLog_append (first second : Revisions) :
    registryLog (first ++ second) = registryLog first ++ registryLog second := map_append

theorem between_registryLog (history : Revisions) (start stop : Nat) :
    between (registryLog history) start stop = (between history start stop).filterMap onIds := by
  simp only [between, registryLog, ← map_drop, ← map_take, filterMap_flatten]

theorem onIds_under {update : Update Text String} (under : underPrefix update.key = true) :
    ∃ change, onIds update = some change ∧ change.key = keyToID update.key ∧ change.value = update.value := by
  cases update with
  | put key value => exact ⟨.put (keyToID key) value, if_pos under, rfl, rfl⟩
  | delete key => exact ⟨.delete (keyToID key), if_pos under, rfl, rfl⟩

theorem onIds_elsewhere {update : Update Text String} (elsewhere : ¬underPrefix update.key = true) :
    onIds update = none := if_neg elsewhere

theorem replay_onIds (updates : List (Update Text String)) {state : Text → Option String}
    {byId : String → Option String} (same : ∀ id, byId id = state (registryPrefix ++ id.toList)) (id : String) :
    replay (updates.filterMap onIds) byId id = replay updates state (registryPrefix ++ id.toList) := by
  induction updates generalizing state byId with
  | nil => exact same id
  | cons update _ ih =>
    by_cases under : underPrefix update.key = true
    · obtain ⟨_, translated, key, value⟩ := onIds_under under
      rw [filterMap_cons_some translated, replay_cons]
      apply ih
      intro other
      rw [Update.apply, Update.apply, key, value, update_apply, update_apply, same]
      simp only [@eq_comm _ _ update.key, @eq_comm _ _ (keyToID update.key), key_eq_iff under]
    · rw [filterMap_cons_none (onIds_elsewhere under)]
      apply ih
      intro other
      rw [Update.apply, update_of_ne]
      · exact same other
      · intro own
        exact under (underPrefix_iff.mpr ⟨other, own.symm⟩)

theorem contents_registryLog (history : Revisions) (revision : Nat) :
    contents (registryLog history) revision = registryAt history revision := by
  funext id
  rw [registryAt, contents, contents, between_registryLog]
  apply replay_onIds
  intro _
  rfl

theorem get?_commitChange (kvs : Dict Text String) (change : Update Text String) :
    (commitChange kvs change).get? = (some change).elim kvs.get? (Update.apply kvs.get?) := by
  funext key
  rw [Option.elim_some, Update.apply, update_apply]
  cases change with
  | put changed value => exact get?_set kvs changed key value
  | delete changed => exact get?_erase kvs changed key

theorem get?_kvsOf (history : Revisions) : (kvsOf history).get? = contents history history.length := by
  have whole : between history 0 history.length = history.flatten := by
    rw [between, drop_zero, Nat.sub_zero, take_length]
  have folded := replay_follows get?_commitChange history.flatten .empty
  rw [filterMap_some] at folded
  rw [contents, whole]
  exact folded

theorem get?_applyEvent (members : Dict String String) (event : Update Text String) :
    (if underPrefix event.key = true then applyEvent members event else members).get? =
      (onIds event).elim members.get? (Update.apply members.get?) := by
  by_cases under : underPrefix event.key = true
  · obtain ⟨_, translated, key, value⟩ := onIds_under under
    rw [if_pos under, translated, Option.elim_some]
    funext id
    rw [Update.apply, key, value, update_apply]
    cases event with
    | put eventKey eventValue => exact get?_set members (keyToID eventKey) id eventValue
    | delete eventKey => exact get?_erase members (keyToID eventKey) id
  · rw [if_neg under, onIds_elsewhere under, Option.elim_none]

theorem get?_applyEvents (events : List (Update Text String)) (members : Dict String String) :
    ((events.filter fun event => underPrefix event.key).foldl applyEvent members).get? =
      replay (events.filterMap onIds) members.get? := by
  rw [foldl_filter]
  exact replay_follows get?_applyEvent events members

def byKey (members : Dict String String) (key : Text) : Option String :=
  if underPrefix key then members.get? (keyToID key) else none

theorem byKey_read (members : Dict String String) (key : Text) (value : String) (other : Text) :
    byKey (if underPrefix key = true then members.set (keyToID key) value else members) other =
      if other = key then if underPrefix key then some value else none else byKey members other := by
  by_cases same : other = key
  · subst same
    by_cases under : underPrefix other = true
    · simp [byKey, under, get?_set]
    · simp [byKey, under]
  · by_cases under : underPrefix key = true
    · have different : underPrefix other = true → keyToID other ≠ keyToID key := by
        intro otherUnder equal
        exact same (((key_eq_iff otherUnder).mpr equal).trans ((key_eq_iff under).mpr rfl).symm)
      by_cases otherUnder : underPrefix other = true
      · simp [byKey, under, otherUnder, same, get?_set, different otherUnder]
      · simp [byKey, otherUnder, same]
    · simp [under, same]

theorem get?_snapshot (history : Revisions) : (snapshot history).get? = registryAt history history.length := by
  funext id
  have under := underPrefix_iff.mpr ⟨id, rfl⟩
  have folded := @foldl_items_pointwise Text String (Dict String String) _ _ byKey
    (fun members kv => if underPrefix kv.1 = true then members.set (keyToID kv.1) kv.2 else members)
    (fun key value _ => if underPrefix key then some value else none) byKey_read (kvsOf history) .empty
    (registryPrefix ++ id.toList)
  rw [registryAt, ← get?_kvsOf, snapshot, foldl_filter]
  simp only [byKey, under, keyToID_append, if_true, get?_empty] at folded
  rw [folded]
  cases (kvsOf history).get? (registryPrefix ++ id.toList) with
  | none => rfl
  | some => rfl

/-! ## Convergence -/

theorem registryAt_append (within : revision ≤ history.length) (more : Revisions) :
    registryAt (history ++ more) revision = registryAt history revision := by
  funext id
  rw [registryAt, registryAt, contents_append_log within]

/-- The loop as a reader of the registry's log. -/
structure Following (watch : EtcdWatch) : Prop where
  trails : Trails (registryLog watch.history) watch.members.get? watch.position watch.furthest
  within : watch.furthest ≤ watch.history.length
  since : watch.rev ≤ watch.position
  latest : watch.published.getLast? = some (endpointsOf watch.members)

namespace Following

variable {watch : EtcdWatch}

theorem started (history : Revisions) : Following (.start history) where
  trails := by
    have start := Trails.start (registryLog history) history.length
    rw [contents_registryLog, ← get?_snapshot] at start
    exact start
  within := Nat.le_refl _
  since := Nat.le_refl _
  latest := rfl

theorem consume (following : Following watch) (later : watch.position ≤ revision)
    (within : revision ≤ watch.history.length) : Following (watch.consume revision) where
  trails := by
    have advanced := following.trails.advance later
    rw [between_registryLog, ← get?_applyEvents] at advanced
    exact advanced
  within := Nat.max_le.mpr ⟨following.within, within⟩
  since := Nat.le_trans following.since later
  latest := getLast?_concat

theorem resume (following : Following watch) : Following watch.resume where
  trails := by
    have start := (started watch.history).trails
    simp only [EtcdWatch.resume, Nat.max_eq_right following.within]
    exact start
  within := Nat.max_le.mpr ⟨following.within, Nat.le_refl _⟩
  since := Nat.le_refl _
  latest := getLast?_concat

theorem step (following : Following watch) {event : WatchEvent} {next : EtcdWatch}
    (went : watch.step event = .ok next) : Following next := by
  cases event with
  | commit =>
    cases went
    constructor
    · rw [registryLog_append]
      apply following.trails.append_log
      rw [length_registryLog]
      exact following.within
    · rw [length_append]
      exact Nat.le_trans following.within (Nat.le_add_right _ _)
    · exact following.since
    · exact following.latest
  | deliver =>
    simp only [EtcdWatch.step] at went
    split at went
    case isTrue enabled =>
      cases went
      exact following.consume enabled.2.1 enabled.2.2
    case isFalse => cases went
  | die =>
    simp only [EtcdWatch.step] at went
    split at went
    · cases went
      exact ⟨following.trails, following.within, following.since, following.latest⟩
    · cases went
  | retry =>
    simp only [EtcdWatch.step] at went
    split at went
    · cases went
    · split at went
      · cases went
        exact following.resume
      · cases went
        exact ⟨following.trails.restart following.since, following.within, Nat.le_refl _, following.latest⟩

end Following

/-- The revisions of the deliveries and the answered snapshots, in order; `newest` is the revision
etcd is at. -/
def learned (newest : Nat) : List WatchEvent → List Nat
  | [] => []
  | .commit _ :: events => learned (newest + 1) events
  | .deliver revision :: events => revision :: learned newest events
  | .retry true :: events => newest :: learned newest events
  | .die :: events | .retry false :: events => learned newest events

/-- The loop after it has heard of these revisions. -/
structure Hearing (watch : EtcdWatch) (revisions : List Nat) : Prop where
  following : Following watch
  most : ∀ revision ∈ revisions, revision ≤ watch.furthest
  furthest : watch.furthest ∈ revisions
  members : ∀ revision, revisions.getLast? = some revision → watch.furthest ≤ revision →
    watch.members.get? = registryAt watch.history revision

namespace Hearing

variable {watch next : EtcdWatch} {revisions : List Nat} {event : WatchEvent}

theorem started (history : Revisions) : Hearing (.start history) [history.length] where
  following := .started history
  most := by simp [EtcdWatch.start]
  furthest := by simp [EtcdWatch.start]
  members revision last _ := by
    cases last
    exact get?_snapshot history

variable (hearing : Hearing watch revisions)
include hearing

theorem hear (following : Following next)
    (further : next.furthest = max watch.furthest next.position) : Hearing next (revisions ++ [next.position]) where
  following := following
  most := by
    intro revision mem
    rw [further]
    rcases mem_append.mp mem with old | new
    · exact Nat.le_trans (hearing.most revision old) (Nat.le_max_left _ _)
    · rw [mem_singleton.mp new]
      exact Nat.le_max_right _ _
  furthest := by
    have known := hearing.furthest
    grind
  members revision last back := by
    rw [getLast?_concat] at last
    cases last
    rw [following.trails.caught_up back, contents_registryLog]

theorem silent (following : Following next)
    (history : next.history = watch.history) (members : next.members = watch.members)
    (furthest : next.furthest = watch.furthest) : Hearing next revisions where
  following := following
  most := furthest ▸ hearing.most
  furthest := furthest ▸ hearing.furthest
  members := by
    rw [history, members, furthest]
    exact hearing.members

theorem step (went : watch.step event = .ok next) (events : List WatchEvent) :
    ∃ more, learned watch.history.length (event :: events) = more ++ learned next.history.length events ∧
      Hearing next (revisions ++ more) := by
  have following := hearing.following.step went
  cases event with
  | commit changes =>
    cases went
    refine ⟨[], by simp [learned], following, by simpa using hearing.most, by simpa using hearing.furthest, ?_⟩
    intro revision last back
    rw [append_nil] at last
    have within := Nat.le_trans (hearing.most revision (mem_of_getLast? last)) hearing.following.within
    rw [registryAt_append within]
    exact hearing.members revision last back
  | deliver revision =>
    simp only [EtcdWatch.step] at went
    split at went
    · cases went
      exact ⟨[revision], rfl, hearing.hear following rfl⟩
    · cases went
  | die =>
    simp only [EtcdWatch.step] at went
    split at went
    · cases went
      exact ⟨[], rfl, by simpa using hearing.silent following rfl rfl rfl⟩
    · cases went
  | retry answered =>
    simp only [EtcdWatch.step] at went
    split at went
    · cases went
    · cases answered with
      | true =>
        cases went
        exact ⟨[watch.history.length], rfl, hearing.hear following rfl⟩
      | false =>
        cases went
        exact ⟨[], rfl, by simpa using hearing.silent following rfl rfl rfl⟩

theorem run {last : EtcdWatch} {events : List WatchEvent}
    (ran : Lib.run EtcdWatch.step watch events = .ok last) :
    Hearing last (revisions ++ learned watch.history.length events) := by
  induction events generalizing watch revisions with
  | nil =>
    cases ran
    simpa [learned] using hearing
  | cons event events ih =>
    obtain ⟨next, went, ranRest⟩ := run_cons_inv ran
    obtain ⟨more, split, heardMore⟩ := hearing.step went events
    rw [split, ← append_assoc]
    exact ih heardMore ranRest

end Hearing

/-- Whenever the last revision that was delivered or read is as late as any before it, the map and
the last set that was published are the registry's there. -/
theorem discovery_converges (history : Revisions) (events : List WatchEvent) (watch : EtcdWatch) (revision : Nat)
    (ran : run EtcdWatch.step (.start history) events = .ok watch)
    (last : (history.length :: learned history.length events).getLast? = some revision)
    (latest : ∀ earlier ∈ history.length :: learned history.length events, earlier ≤ revision) :
    (∀ id, watch.members.get? id = registryAt watch.history revision id) ∧
      ∃ endpoints, watch.published.getLast? = some endpoints ∧ Shows watch.history revision endpoints := by
  have hearing : Hearing watch (history.length :: learned history.length events) := (Hearing.started history).run ran
  have right := hearing.members revision last (latest _ hearing.furthest)
  exact ⟨congrFun right, _, hearing.following.latest, shows_endpointsOf right⟩

/-- A replica comes and goes, another one comes, and the watcher dies before a snapshot that fails. -/
def beforeReplay : List WatchEvent :=
  [.commit [.put (registryPrefix ++ ['a']) "host:1"], .deliver 1, .commit [.delete (registryPrefix ++ ['a'])], .deliver 2,
    .commit [.put (registryPrefix ++ ['b']) "host:2"], .deliver 3, .die, .retry false]

theorem discovery_converges_after_replay :
    0 :: learned 0 (beforeReplay ++ [.deliver 1, .deliver 3]) = [0, 1, 2, 3, 1, 3] ∧
      Yields (run EtcdWatch.step (.start []) (beforeReplay ++ [.deliver 1, .deliver 3])) fun watch =>
        (∀ id, watch.members.get? id = registryAt watch.history 3 id) ∧
          ∃ endpoints, watch.published.getLast? = some endpoints ∧ Shows watch.history 3 endpoints := by
  obtain ⟨watch, ran, -⟩ : Yields (run EtcdWatch.step (.start []) (beforeReplay ++ [.deliver 1, .deliver 3]))
    fun _ => True := by decide +kernel
  exact ⟨by decide, watch, ran, discovery_converges [] _ watch 3 ran (by decide) (by decide)⟩

/-! ## What is published on the way -/

/-- The sets are of revisions up to a bound, none before the one of the set before it. -/
def InOrder (history : Revisions) (bound : Nat) (sets : List (List Endpoint)) : Prop :=
  ∃ revisions : List Nat, revisions.Pairwise (· ≤ ·) ∧ (∀ revision ∈ revisions, revision ≤ bound) ∧
    Forall₂ (Shows history) revisions sets

/-- A snapshot fails only when the dead watcher had brought no change of the registry. -/
def Fresh (watch : EtcdWatch) : WatchEvent → Prop
  | .retry false => ∀ update ∈ between watch.history watch.rev watch.position, ¬underPrefix update.key = true
  | _ => True

instance decidableFresh (watch : EtcdWatch) : (event : WatchEvent) → Decidable (Fresh watch event)
  | .retry false =>
    inferInstanceAs (Decidable (∀ update ∈ between watch.history watch.rev watch.position, ¬underPrefix update.key = true))
  | .retry true | .commit _ | .deliver _ | .die => .isTrue trivial

namespace InOrder

variable {bound : Nat} {sets : List (List Endpoint)}

theorem append_log (inOrder : InOrder history bound sets) (within : bound ≤ history.length) (more : Revisions) :
    InOrder (history ++ more) bound sets := by
  obtain ⟨revisions, sorted, bounded, shown⟩ := inOrder
  refine ⟨revisions, sorted, bounded, ?_⟩
  apply ((forall₂_and_left _ _).mpr ⟨bounded, shown⟩).imp
  intro revision endpoints ⟨isBounded, isShown⟩ id addr
  rw [registryAt_append (Nat.le_trans isBounded within)]
  exact isShown id addr

theorem publish (inOrder : InOrder history bound sets) {later : Nat} (after : bound ≤ later)
    {endpoints : List Endpoint} (isShown : Shows history later endpoints) :
    InOrder history later (sets ++ [endpoints]) := by
  obtain ⟨revisions, _, bounded, shown⟩ := inOrder
  have upTo : ∀ revision ∈ revisions, revision ≤ later := fun revision mem =>
    Nat.le_trans (bounded revision mem) after
  refine ⟨revisions ++ [later], ?_, ?_, rel_append shown (.cons isShown .nil)⟩
  · grind
  · grind

end InOrder

structure Current (watch : EtcdWatch) (bound : Nat) : Prop where
  reached : watch.position ≤ bound
  within : bound ≤ watch.history.length
  since : watch.rev ≤ watch.position
  quiet : ∀ revision, watch.position ≤ revision → revision ≤ bound →
    registryAt watch.history revision = registryAt watch.history watch.position
  members : watch.members.get? = registryAt watch.history watch.position
  inOrder : InOrder watch.history bound watch.published

theorem registryAt_of_fresh {start stop : Nat}
    (fresh : ∀ update ∈ between history start stop, ¬underPrefix update.key = true) (after : start ≤ revision)
    (upTo : revision ≤ stop) : registryAt history revision = registryAt history start := by
  funext id
  rw [← contents_registryLog, ← contents_registryLog]
  apply contents_of_untouched after
  rintro ⟨_, mem, -⟩
  rw [between_registryLog, mem_filterMap] at mem
  obtain ⟨update, isBetween, translated⟩ := mem
  rw [onIds_elsewhere] at translated
  · cases translated
  · apply fresh
    rw [← between_append after upTo]
    exact mem_append_left _ isBetween

namespace Current

variable {watch : EtcdWatch} {bound : Nat}

theorem started (history : Revisions) : Current (.start history) history.length where
  reached := Nat.le_refl _
  within := Nat.le_refl _
  since := Nat.le_refl _
  quiet revision after upTo := by
    obtain rfl := Nat.le_antisymm upTo after
    rfl
  members := get?_snapshot history
  inOrder := by
    have isShown := shows_endpointsOf (get?_snapshot history)
    exact ⟨[history.length], pairwise_singleton _ _, by simp, .cons isShown .nil⟩

section

variable (current : Current watch bound)
include current

theorem commit (changes : List (Update Text String)) :
    Current { watch with history := watch.history ++ [changes] } bound where
  reached := current.reached
  within := by
    rw [length_append]
    exact Nat.le_trans current.within (Nat.le_add_right _ _)
  since := current.since
  quiet revision after upTo := by
    rw [registryAt_append (Nat.le_trans upTo current.within),
      registryAt_append (Nat.le_trans current.reached current.within)]
    exact current.quiet revision after upTo
  members := by
    rw [registryAt_append (Nat.le_trans current.reached current.within)]
    exact current.members
  inOrder := current.inOrder.append_log current.within _

theorem consume (later : watch.position ≤ revision)
    (within : revision ≤ watch.history.length) : Current (watch.consume revision) (max bound revision) := by
  have members : (watch.consume revision).members.get? = registryAt watch.history revision := by
    have read := get?_applyEvents (between watch.history watch.position revision) watch.members
    rw [← between_registryLog, current.members, ← contents_registryLog, ← contents_later later,
      contents_registryLog] at read
    exact read
  -- Up to `bound` nothing happens after the position, and so nothing after the revision.
  have quiet : ∀ other, revision ≤ other → other ≤ max bound revision →
      registryAt watch.history other = registryAt watch.history revision := by
    intro other after upTo
    by_cases beyond : revision ≤ bound
    · rw [Nat.max_eq_left beyond] at upTo
      rw [current.quiet other (Nat.le_trans later after) upTo, current.quiet revision later beyond]
    · grind
  refine ⟨Nat.le_max_right _ _, Nat.max_le.mpr ⟨current.within, within⟩, Nat.le_trans current.since later, quiet,
    members, ?_⟩
  apply current.inOrder.publish (Nat.le_max_left _ _)
  apply shows_endpointsOf
  rw [quiet _ (Nat.le_max_right _ _) (Nat.le_refl _)]
  exact members

theorem resume : Current watch.resume watch.history.length where
  reached := Nat.le_refl _
  within := Nat.le_refl _
  since := Nat.le_refl _
  quiet := (started watch.history).quiet
  members := get?_snapshot watch.history
  inOrder := current.inOrder.publish current.within (shows_endpointsOf (get?_snapshot watch.history))

theorem restart (fresh : Fresh watch (.retry false)) :
    Current { watch with watching := true, position := watch.rev } bound where
  reached := Nat.le_trans current.since current.reached
  within := current.within
  since := Nat.le_refl _
  quiet revision after upTo := by
    by_cases beyond : watch.position ≤ revision
    · rw [current.quiet revision beyond upTo]
      exact registryAt_of_fresh fresh current.since (Nat.le_refl _)
    · exact registryAt_of_fresh fresh after (Nat.le_of_not_le beyond)
  members := by
    rw [current.members]
    exact registryAt_of_fresh fresh current.since (Nat.le_refl _)
  inOrder := current.inOrder

theorem step {event : WatchEvent} (fresh : Fresh watch event) {next : EtcdWatch}
    (went : watch.step event = .ok next) : ∃ further, Current next further := by
  cases event with
  | commit changes =>
    cases went
    exact ⟨bound, current.commit changes⟩
  | deliver =>
    simp only [EtcdWatch.step] at went
    split at went
    case isTrue enabled =>
      cases went
      exact ⟨_, current.consume enabled.2.1 enabled.2.2⟩
    case isFalse => cases went
  | die =>
    simp only [EtcdWatch.step] at went
    split at went
    · cases went
      exact ⟨bound, current.reached, current.within, current.since, current.quiet, current.members, current.inOrder⟩
    · cases went
  | retry answered =>
    simp only [EtcdWatch.step] at went
    split at went
    · cases went
    · cases answered with
      | true =>
        cases went
        exact ⟨_, current.resume⟩
      | false =>
        cases went
        exact ⟨_, current.restart fresh⟩

end

end Current

/-- Every set that is published is the registry's at some revision. -/
theorem published_sets_are_real (history : Revisions) (events : List WatchEvent) (watch : EtcdWatch)
    (ran : run EtcdWatch.step (.start history) events = .ok watch)
    (fresh : Along EtcdWatch.step Fresh (.start history) events) :
    InOrder watch.history watch.history.length watch.published := by
  have current : ∃ bound, Current watch bound := by
    refine @run_preserves _ _ _ _ (fun watch => ∃ bound, Current watch bound) Fresh ?_ events _ watch
      ⟨_, .started history⟩ fresh ran
    intro before event next ⟨bound, held⟩ isFresh stepped
    exact held.step isFresh stepped
  obtain ⟨bound, held⟩ := current
  obtain ⟨revisions, sorted, bounded, shown⟩ := held.inOrder
  exact ⟨revisions, sorted, fun revision member => Nat.le_trans (bounded revision member) held.within, shown⟩

/-- A snapshot fails before anything was delivered, and another one is answered. -/
def outage : List WatchEvent :=
  [.commit [.put (registryPrefix ++ ['a']) "host:1"], .die, .retry false, .deliver 1, .die, .retry true,
    .commit [.delete (registryPrefix ++ ['a'])], .deliver 2]

theorem published_sets_are_real_over_outage :
    Yields (run EtcdWatch.step (.start []) outage) fun watch =>
      watch.published.length = 4 ∧ InOrder watch.history watch.history.length watch.published := by
  have four : Yields (run EtcdWatch.step (.start []) outage) fun watch => watch.published.length = 4 := by
    decide +kernel
  obtain ⟨watch, ran, length⟩ := four
  exact ⟨watch, ran, length, published_sets_are_real [] outage watch ran (by decide +kernel)⟩

theorem registryAt_min (history : Revisions) (revision : Nat) :
    registryAt history revision = registryAt history (min revision history.length) := by
  funext id
  simp only [registryAt, contents, between, drop_zero, Nat.sub_zero]
  rw [take_eq_take_min]

/-- The registration of the first replica is replayed over the state in which it has left and the
second one has come. -/
theorem published_set_is_of_no_revision :
    Yields (run EtcdWatch.step (.start []) (beforeReplay ++ [.deliver 1])) fun watch =>
      ∃ endpoints, watch.published.getLast? = some endpoints ∧
        ∀ revision, ¬Shows watch.history revision endpoints := by
  have reached : Yields (run EtcdWatch.step (.start []) (beforeReplay ++ [.deliver 1])) fun watch =>
      watch.published.getLast? = some [⟨"b", "host:2"⟩, ⟨"a", "host:1"⟩] ∧ watch.history.length = 3 ∧
        ∀ revision ≤ 3, ¬(registryAt watch.history revision "a" = some "host:1" ∧
          registryAt watch.history revision "b" = some "host:2") := by decide +kernel
  obtain ⟨watch, ran, last, three, notBoth⟩ := reached
  refine ⟨watch, ran, _, last, ?_⟩
  intro revision isShown
  have first := (isShown "a" "host:1").mp (by simp)
  have second := (isShown "b" "host:2").mp (by simp)
  rw [registryAt_min, three] at first second
  exact notBoth _ (Nat.min_le_right _ _) ⟨first, second⟩

end Nanoserve.Verified
