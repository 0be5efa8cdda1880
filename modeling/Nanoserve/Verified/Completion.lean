import Nanoserve.Verified.EngineThread

/-! # When a stream is done

`_fanout` drains the tokens first and the outcomes second.
-/

namespace Nanoserve.Verified

open Engine Lib List
open ContinuousBatchingEngine

variable {X V L S : Type} {cfg : Config X V L S} {srv next : AsyncEngine V S}
variable {req other : Nat}

/-- If a stream is done, every token emitted for its request has been put on its queue. -/
def Complete (server : AsyncEngine V S) : Prop :=
  ∀ request, (server.stream request).finishReason.isSome →
    (server.stream request).received ++ (server.stream request).queue = server.emittedFor request

/-- No token is left of a request whose stream the second drain is about to tell. -/
def Collected (server : AsyncEngine V S) : Prop :=
  ∀ request ∈ server.session.engine.newlyFinished, server.streams.get? (server.requestId request) = some request →
    request ∉ server.session.engine.emitted.map Prod.fst

/-- Between the two drains of a `_fanout` the thread does not append both a token and the outcome of
a request whose stream is there. -/
def Unsplit (cfg : Config X V L S) (server : AsyncEngine V S) : AsyncEngine.Event → Prop
  | .fanout between =>
    match server.halfway cfg between with
    | .ok middle => Collected middle
    | .error _ => True
  | _ => True

/-- The outcome of the request and all of its tokens have been fanned out. -/
def Spent (server : AsyncEngine V S) (request : Nat) : Prop :=
  request ∈ server.session.drainedFinished ∧ request ∉ server.session.engine.emitted.map Prod.fst

/-- A request comes under an id only when the earlier ones under it are spent. -/
def Renewed (server : AsyncEngine V S) : AsyncEngine.Event → Prop
  | .submit request _ => request ∉ server.session.submitted →
    ∀ other ∈ server.session.submitted, server.requestId other = server.requestId request → Spent server other
  | _ => True

instance (server : AsyncEngine V S) : (event : AsyncEngine.Event) → Decidable (Renewed server event)
  | .submit request _ => inferInstanceAs (Decidable (request ∉ server.session.submitted → ∀ other ∈
      server.session.submitted, server.requestId other = server.requestId request →
        other ∈ server.session.drainedFinished ∧ other ∉ server.session.engine.emitted.map Prod.fst))
  | .thread _ | .cancel _ | .fanout _ | .get _ | .release _ => .isTrue trivial

def tokensAmong (request : Nat) (entries : List (Nat × Nat)) : List Nat :=
  (entries.filter fun entry => entry.1 = request).map Prod.snd

theorem tokensAmong_append (req : Nat) (first second : List (Nat × Nat)) :
    tokensAmong req (first ++ second) = tokensAmong req first ++ tokensAmong req second := by
  simp [tokensAmong]

theorem tokensAmong_eq_nil {entries : List (Nat × Nat)} :
    tokensAmong req entries = [] ↔ req ∉ entries.map Prod.fst := by
  simp only [tokensAmong, map_eq_nil_iff, filter_eq_nil_iff, decide_eq_true_eq, mem_map, not_exists, not_and]

def given (server : AsyncEngine V S) (request : Nat) : List Nat :=
  (server.stream request).received ++ (server.stream request).queue

structure Delivers (server : AsyncEngine V S) : Prop where
  known : ∀ entry ∈ server.session.drainedEmitted ++ server.session.engine.emitted ++ server.emitting,
    entry.1 ∈ server.session.submitted
  silent : ∀ request ∈ server.session.outcomes, request ∉ server.emitting.map Prod.fst
  named : ∀ requestId request, server.streams.get? requestId = some request →
    server.requestId request = requestId ∧ request ∈ server.session.submitted
  registered : ∀ requestId request, server.streams.get? requestId = some request →
    given server request = tokensAmong request server.session.drainedEmitted
  alone : ∀ requestId request, server.streams.get? requestId = some request →
    ∀ other ∈ server.session.submitted, server.requestId other = requestId → other ≠ request → Spent server other
  signalled : ∀ request, (server.stream request).finishReason.isSome → request ∈ server.session.drainedFinished
  within : ∀ request, given server request <+: tokensAmong request server.session.drainedEmitted

theorem given_eq_emittedFor (within : given srv req <+: tokensAmong req srv.session.drainedEmitted) :
    given srv req = srv.emittedFor req ↔
      given srv req = tokensAmong req srv.session.drainedEmitted ∧
        req ∉ srv.session.engine.emitted.map Prod.fst ∧ req ∉ srv.emitting.map Prod.fst := by
  have whole : srv.emittedFor req = tokensAmong req srv.session.drainedEmitted ++
      (tokensAmong req srv.session.engine.emitted ++ tokensAmong req srv.emitting) := by
    rw [← append_assoc, ← tokensAmong_append, ← tokensAmong_append]
    rfl
  rw [whole, ← tokensAmong_eq_nil, ← tokensAmong_eq_nil]
  constructor
  · intro all
    have length := congrArg List.length all
    rw [length_append, length_append] at length
    have most := within.length_le
    refine ⟨within.eq_of_length (by omega), ?_, ?_⟩
    · exact length_eq_zero_iff.mp (by omega)
    · exact length_eq_zero_iff.mp (by omega)
  · rintro ⟨drained, emitted, emitting⟩
    rw [emitted, emitting, drained, append_nil, append_nil]

namespace Delivers

section

variable (delivers : Delivers srv)
include delivers

theorem threadMoves (moves : ThreadMoves srv next) : Delivers next := by
  obtain ⟨known, silent, named, registered, alone, signalled, within⟩ := delivers
  cases moves with
  | stay => exact ⟨known, silent, named, registered, alone, signalled, within⟩
  | take => exact ⟨known, silent, named, registered, alone, signalled, within⟩
  | rest => exact ⟨known, silent, named, registered, alone, signalled, within⟩
  | work eng stage _ _ clients tokens =>
    have sameId : ∀ req, (srv.put eng stage).requestId req = srv.requestId req :=
      fun req => (clients req).requestId
    refine ⟨?_, ?_, ?_, registered, ?_, signalled, within⟩
    · intro entry mem
      cases mem_append.mp mem with
      | inl shared => exact known entry (mem_append_left _ shared)
      | inr new => exact (tokens entry new).1
    · intro req reported produced
      obtain ⟨entry, mem, rfl⟩ := mem_map.mp produced
      exact (tokens entry mem).2 reported
    · intro id req found
      rw [sameId]
      exact named id req found
    · intro id req found other mem otherNamed
      rw [sameId] at otherNamed
      exact alone id req found other mem otherNamed
  | emit entry _ due =>
    refine ⟨?_, ?_, named, registered, ?_, signalled, within⟩
    · grind
    · intro req reported produced
      refine silent req reported ?_
      rw [due]
      exact mem_cons_of_mem _ produced
    · -- The token that moves is not one of a request that has an outcome.
      intro id req found other mem otherNamed differs
      obtain ⟨reported, absent⟩ := alone id req found other mem otherNamed differs
      have moving : other ≠ entry.1 := by
        rintro rfl
        exact silent _ (mem_append_left _ reported) (by simp [due])
      refine ⟨reported, ?_⟩
      simp only [map_append, mem_append, map_cons, map_nil, mem_singleton, not_or]
      exact ⟨absent, moving⟩
  | report req =>
    refine ⟨known, ?_, named, registered, alone, signalled, within⟩
    intro other reported
    change other ∈ _ ++ (_ ++ [req]) at reported
    rw [← append_assoc] at reported
    cases mem_append.mp reported with
    | inl before => exact silent other before
    | inr => grind

theorem complete_threadMoves (complete : Complete srv)
    (moves : ThreadMoves srv next) : Complete next := by
  cases moves with
  | work eng _ emitting _ _ tokens =>
    intro req done
    have reported := mem_append_left srv.session.engine.newlyFinished (delivers.signalled req done)
    have none : tokensAmong req eng.emitted = [] := by
      rw [tokensAmong_eq_nil]
      intro produced
      obtain ⟨entry, mem, rfl⟩ := mem_map.mp produced
      exact (tokens entry mem).2 reported
    refine (complete req done).trans ?_
    show tokensAmong req (_ ++ srv.emitting) = tokensAmong req (_ ++ eng.emitted)
    rw [tokensAmong_append req _ srv.emitting, tokensAmong_append req _ eng.emitted, none, emitting]
    rfl
  | emit entry emitting due =>
    intro req done
    refine (complete req done).trans ?_
    show tokensAmong req (_ ++ _ ++ srv.emitting) = tokensAmong req (_ ++ (_ ++ [entry]) ++ emitting)
    rw [due]
    simp
  | _ => exact complete

theorem deliveries_eq (req : Nat) :
    deliveries srv srv.session.engine.emitted req =
      if srv.streams.get? (srv.requestId req) = some req then
        tokensAmong req srv.session.engine.emitted
      else [] := by
  split
  case isTrue found =>
    refine congrArg (map Prod.snd) (filter_congr fun entry mem => ?_)
    by_cases own : entry.1 = req
    · rw [own]
      simp [found]
    · -- A token of another request under this id would be left of a spent one.
      have elsewhere : srv.streams.get? (srv.requestId entry.1) ≠ some req := by
        intro here
        have sameId := (delivers.named _ _ here).1
        have known := delivers.known entry (mem_append_left _ (mem_append_right _ mem))
        have spent := delivers.alone _ _ found entry.1 known sameId.symm own
        exact spent.2 (mem_map_of_mem mem)
      simp [own, elsewhere]
  case isFalse missing =>
    rw [deliveries, map_eq_nil_iff, filter_eq_nil_iff]
    intro entry _ here
    have found := of_decide_eq_true here
    rw [← (delivers.named _ _ found).1] at found
    exact missing found

theorem fanoutEmitted : Delivers srv.fanoutEmitted := by
  have handed := delivers.deliveries_eq
  obtain ⟨known, silent, named, registered, alone, signalled, within⟩ := delivers
  rw [fanoutEmitted_eq]
  refine ⟨?_, silent, named, ?_, ?_, signalled, ?_⟩
  · simpa using known
  · intro id req found
    have own : srv.streams.get? (srv.requestId req) = some req := by grind
    show _ ++ (_ ++ deliveries srv _ req) = _
    rw [handed, if_pos own, ← append_assoc, tokensAmong_append]
    exact congrArg (· ++ _) (registered id req found)
  · intro id req found other mem otherNamed differs
    exact ⟨(alone id req found other mem otherNamed differs).1, not_mem_nil⟩
  · intro req
    show _ ++ (_ ++ deliveries srv _ req) <+: _
    rw [handed, tokensAmong_append]
    split
    case isTrue found =>
      rw [← append_assoc]
      exact (congrArg (· ++ _) (registered _ req found)) ▸ prefix_rfl
    case isFalse =>
      rw [append_nil]
      exact (within req).trans (prefix_append _ _)

theorem complete_fanoutEmitted (complete : Complete srv) :
    Complete srv.fanoutEmitted := by
  have handed := delivers.deliveries_eq
  rw [fanoutEmitted_eq]
  intro req done
  have whole := complete req done
  have nothing := ((given_eq_emittedFor (delivers.within req)).mp whole).2.1
  show _ ++ (_ ++ deliveries srv _ req) = tokensAmong req (_ ++ _ ++ [] ++ _)
  rw [handed, tokensAmong_eq_nil.mpr nothing, ite_self, append_nil, append_nil]
  exact whole

theorem signals_iff (tracks : Tracks cfg srv) {req : Nat} :
    Signals srv srv.session.engine.newlyFinished req ↔
      req ∈ srv.session.engine.newlyFinished ∧
        srv.streams.get? (srv.requestId req) = some req := by
  constructor
  · rintro ⟨other, finished, found, -⟩
    have own : other = req := by
      by_contra differs
      -- Another request under this id is spent, so its outcome is not reported again.
      have reported : other ∈ srv.session.outcomes := mem_append_right _ finished
      have spent := delivers.alone _ _ found other (tracks.outcome_submitted reported) rfl differs
      have once := tracks.outcomes_nodup.sublist (sublist_append_left _ _)
      exact (nodup_append.mp once).2.2 other spent.1 other finished rfl
    subst own
    exact ⟨finished, found⟩
  · rintro ⟨finished, found⟩
    exact ⟨req, finished, found, tracks.reason (mem_append_right _ finished)⟩

theorem fanoutFinished (tracks : Tracks cfg srv) : Delivers srv.fanoutFinished := by
  obtain ⟨_, fanned, _⟩ := fanoutFinished_eq srv
  have signals := fun req => @signals_iff _ _ _ _ cfg srv delivers tracks req
  obtain ⟨known, silent, named, registered, alone, _, within⟩ := delivers
  rw [fanned]
  refine ⟨known, ?_, named, registered, ?_, ?_, within⟩
  · simpa [Session.outcomes] using silent
  · intro id req found other mem otherNamed differs
    obtain ⟨reported, absent⟩ := alone id req found other mem otherNamed differs
    exact ⟨mem_append_left _ reported, absent⟩
  · grind

theorem complete_fanoutFinished (tracks : Tracks cfg srv)
    (complete : Complete srv) : Complete srv.fanoutFinished ↔ Collected srv := by
  obtain ⟨_, fanned, told⟩ := fanoutFinished_eq srv
  rw [fanned]
  constructor
  · intro after req finished found
    have done := (told req).mpr (.inr ((delivers.signals_iff tracks).mpr ⟨finished, found⟩))
    have whole := after req done
    exact ((given_eq_emittedFor (delivers.within req)).mp whole).2.1
  · intro collected req done
    cases (told req).mp done with
    | inl before => exact complete req before
    | inr now =>
      obtain ⟨finished, found⟩ := (delivers.signals_iff tracks).mp now
      exact (given_eq_emittedFor (delivers.within req)).mpr ⟨delivers.registered _ _ found,
        collected req finished found, delivers.silent req (mem_append_right _ finished)⟩

/-! ## Events -/

theorem lookup_submit (new : req ∉ srv.session.submitted) {requestId : String}
    (found : (srv.streams.set (srv.requestId req) req).get? requestId = some other) :
    (requestId = srv.requestId req ∧ other = req) ∨
      (requestId ≠ srv.requestId req ∧ other ≠ req ∧ srv.streams.get? requestId = some other) := by
  rw [Dict.get?_set] at found
  split at found
  case isTrue own => exact .inl ⟨own, (Option.some.inj found).symm⟩
  case isFalse differs =>
    refine .inr ⟨differs, ?_, found⟩
    rintro rfl
    exact new (delivers.named _ _ found).2

theorem unheard (new : req ∉ srv.session.submitted) :
    tokensAmong req srv.session.drainedEmitted = [] ∧ req ∉ srv.emitting.map Prod.fst := by
  rw [tokensAmong_eq_nil]
  constructor
  · intro produced
    obtain ⟨entry, mem, rfl⟩ := mem_map.mp produced
    exact new (delivers.known entry (mem_append_left _ (mem_append_left _ mem)))
  · intro produced
    obtain ⟨entry, mem, rfl⟩ := mem_map.mp produced
    exact new (delivers.known entry (mem_append_right _ mem))

end

section

variable (submits : Submits srv next req)
include submits

theorem given_submits (other : Nat) :
    given next other = if other = req then [] else given srv other := by
  rw [given, given, submits.stream]
  split
  case isTrue own => simp [own]
  case isFalse differs => rw [Function.update_of_ne differs]

theorem done_submits (done : (next.stream other).finishReason.isSome) :
    other ≠ req ∧ (srv.stream other).finishReason.isSome := by
  rw [submits.stream] at done
  by_cases own : other = req
  · grind
  · grind

theorem spent_submits (spent : Spent srv other) : Spent next other := by
  rw [Spent, submits.drainedFinished, submits.emitted]
  exact spent

end

theorem submits (delivers : Delivers srv) (new : req ∉ srv.session.submitted)
    (spent : ∀ other ∈ srv.session.submitted, srv.requestId other = srv.requestId req → Spent srv other)
    (submits : Submits srv next req) : Delivers next where
  known := by
    intro entry mem
    rw [submits.drainedEmitted, submits.emitted, submits.emitting] at mem
    rw [submits.submitted]
    exact mem_append_left _ (delivers.known entry mem)
  silent := by
    intro other outcome
    rw [submits.emitting]
    by_cases own : other = req
    · rw [own]
      exact (delivers.unheard new).2
    · exact delivers.silent other (submits.outcomes other own outcome)
  named := by
    intro id other found
    rw [submits.streams] at found
    rw [submits.requestId, submits.submitted]
    obtain ⟨rfl, rfl⟩ | ⟨-, -, before⟩ := delivers.lookup_submit new found
    · exact ⟨rfl, by simp⟩
    · exact ⟨(delivers.named id other before).1, mem_append_left _ (delivers.named id other before).2⟩
  registered := by
    intro id other found
    rw [submits.streams] at found
    rw [given_submits submits, submits.drainedEmitted]
    obtain ⟨rfl, rfl⟩ | ⟨-, differs, before⟩ := delivers.lookup_submit new found
    · rw [if_pos rfl, (delivers.unheard new).1]
    · rw [if_neg differs]
      exact delivers.registered id other before
  alone := by
    intro id other found third mem thirdNamed differs
    rw [submits.streams] at found
    rw [submits.submitted] at mem
    rw [submits.requestId] at thirdNamed
    refine spent_submits submits ?_
    obtain ⟨rfl, rfl⟩ | ⟨otherId, -, before⟩ := delivers.lookup_submit new found
    · have earlier := (mem_append.mp mem).resolve_right fun single => differs (mem_singleton.mp single)
      exact spent third earlier thirdNamed
    · have earlier := (mem_append.mp mem).resolve_right fun single =>
        otherId (thirdNamed ▸ congrArg srv.requestId (mem_singleton.mp single))
      exact delivers.alone id other before third earlier thirdNamed differs
  signalled := by
    intro other done
    rw [submits.drainedFinished]
    exact delivers.signalled other (done_submits submits done).2
  within := by
    intro other
    rw [given_submits submits, submits.drainedEmitted]
    split
    · exact nil_prefix
    · exact delivers.within other

theorem submit (delivers : Delivers srv) {late : Bool} (renewed : Renewed srv (.submit req late)) :
    Delivers (srv.submit cfg req late) := by
  by_cases new : req ∈ srv.session.submitted
  · rw [submit_again late new]
    exact delivers
  · exact delivers.submits new (renewed new) (submit_new late new)

theorem complete_submit (complete : Complete srv) (req : Nat) (late : Bool) :
    Complete (srv.submit cfg req late) := by
  by_cases new : req ∈ srv.session.submitted
  · rw [submit_again late new]
    exact complete
  · have submits := @submit_new _ _ _ _ cfg srv req late new
    intro other done
    obtain ⟨differs, before⟩ := done_submits submits done
    have whole := complete other before
    rw [submits.stream, Function.update_of_ne differs, AsyncEngine.emittedFor, submits.drainedEmitted, submits.emitted,
      submits.emitting]
    exact whole

theorem get_eq (srv : AsyncEngine V S) (req : Nat) :
    ∃ stream, srv.get req = { srv with stream } ∧ ∀ other,
      (stream other).received ++ (stream other).queue = given srv other ∧
        (stream other).finishReason = (srv.stream other).finishReason := by
  unfold AsyncEngine.get
  split
  case h_1 => exact ⟨srv.stream, rfl, fun _ => ⟨rfl, rfl⟩⟩
  case h_2 _ _ due =>
    refine ⟨_, rfl, fun other => ?_⟩
    by_cases own : other = req
    · subst own
      simp [given, due]
    · simp [given, Function.update_of_ne own]

theorem step (delivers : Delivers srv) (tracks : Tracks cfg srv) {event : AsyncEngine.Event}
    (renewed : Renewed srv event) (went : AsyncEngine.step cfg srv event = .ok next) :
    Delivers next ∧ (Complete srv → (Complete next ↔ Unsplit cfg srv event)) := by
  cases event with
  | thread event =>
    obtain ⟨_, movedEq, -, moves⟩ := tracks.threadStep event
    obtain rfl := Except.ok.inj (movedEq.symm.trans went)
    exact ⟨delivers.threadMoves moves, fun complete => iff_of_true (delivers.complete_threadMoves complete moves) trivial⟩
  | submit req late =>
    obtain rfl := Except.ok.inj went
    exact ⟨delivers.submit renewed, fun complete => iff_of_true (complete_submit complete req late) trivial⟩
  | cancel =>
    obtain rfl := Except.ok.inj went
    obtain ⟨known, silent, named, registered, alone, signalled, within⟩ := delivers
    exact ⟨⟨known, silent, named, registered, alone, signalled, within⟩, fun complete => iff_of_true complete trivial⟩
  | fanout between =>
    obtain ⟨_, ran, middleTracks, middleDelivers, middleComplete⟩ := tracks.halfway
      (fun _ _ _ moves (held : Delivers _ ∧ (Complete srv → Complete _)) =>
        ⟨held.1.threadMoves moves, fun complete => held.1.complete_threadMoves (held.2 complete) moves⟩)
      ⟨delivers.fanoutEmitted, delivers.complete_fanoutEmitted⟩ between
    simp only [AsyncEngine.step, ran, Except.ok.injEq] at went
    simp only [Unsplit, ran]
    rw [← went]
    exact ⟨middleDelivers.fanoutFinished middleTracks, fun complete =>
      middleDelivers.complete_fanoutFinished middleTracks (middleComplete complete)⟩
  | get req =>
    obtain rfl := Except.ok.inj went
    obtain ⟨stream, got, same⟩ := get_eq srv req
    obtain ⟨known, silent, named, registered, alone, signalled, within⟩ := delivers
    rw [got]
    refine ⟨⟨known, silent, named, ?_, alone, ?_, ?_⟩, fun complete => iff_of_true ?_ trivial⟩
    · exact fun id other found => (same other).1.trans (registered id other found)
    · exact fun other done => signalled other ((same other).2 ▸ done)
    · intro other
      show (stream other).received ++ (stream other).queue <+: _
      rw [(same other).1]
      exact within other
    · exact fun other done => (same other).1.trans (complete other ((same other).2 ▸ done))
  | release requestId =>
    obtain rfl := Except.ok.inj went
    obtain ⟨known, silent, named, registered, alone, signalled, within⟩ := delivers
    have there : ∀ {id req}, (srv.streams.erase requestId).get? id = some req →
        srv.streams.get? id = some req := by
      intro id req found
      rw [Dict.get?_erase] at found
      split at found
      · cases found
      · exact found
    exact ⟨⟨known, silent, fun id req found => named id req (there found),
      fun id req found => registered id req (there found),
      fun id req found => alone id req (there found), signalled, within⟩,
      fun complete => iff_of_true complete trivial⟩

theorem new (cfg : Config X V L S) (numBlocks size : Nat) (caching : Bool) (zero : V)
    (clients : Nat → Submission) (rng : S) :
    Delivers (AsyncEngine.new cfg numBlocks size caching zero clients rng) where
  known _ mem := absurd mem not_mem_nil
  silent _ _ := not_mem_nil
  named _ _ found := absurd found (by simp [AsyncEngine.new])
  registered _ _ found := absurd found (by simp [AsyncEngine.new])
  alone _ _ found := absurd found (by simp [AsyncEngine.new])
  signalled _ done := absurd done (by simp [AsyncEngine.new])
  within _ := nil_prefix

end Delivers

/-- Any events, with the thread anywhere in its step and no id used again too early: no stream is
ever told before its last token exactly if no drain was split. -/
theorem done_after_last_token_iff (cfg : Config X V L S) (numBlocks blockSize : Nat) (enablePrefixCache : Bool)
    (zero : V) (clients : Nat → Submission) (rng : S) (positive : 0 < blockSize) (events : List AsyncEngine.Event)
    (renewed : Along (AsyncEngine.step cfg) Renewed
      (AsyncEngine.new cfg numBlocks blockSize enablePrefixCache zero clients rng) events) :
    (∃ server, (AsyncEngine.new cfg numBlocks blockSize enablePrefixCache zero clients rng).after cfg events = .ok server) ∧
      (Throughout (AsyncEngine.step cfg) Complete
          (AsyncEngine.new cfg numBlocks blockSize enablePrefixCache zero clients rng) events ↔
        Along (AsyncEngine.step cfg) (Unsplit cfg)
          (AsyncEngine.new cfg numBlocks blockSize enablePrefixCache zero clients rng) events) := by
  have tracks : Tracks cfg (AsyncEngine.new cfg numBlocks blockSize enablePrefixCache zero clients rng) :=
    .new numBlocks enablePrefixCache zero clients rng positive
  have delivers := Delivers.new cfg numBlocks blockSize enablePrefixCache zero clients rng
  constructor
  · obtain ⟨server, ran, -⟩ := run_total (fun _ event held => Tracks.step held event) events tracks
    exact ⟨server, ran⟩
  · refine @along_iff_throughout_given _ _ _ _ (fun server => Tracks cfg server ∧ Delivers server) _ Renewed _
      ?_ ?_ ?_ _ _ ⟨tracks, delivers⟩ ?_ renewed
    · rintro server event next ⟨serverTracks, serverDelivers⟩ met stepped
      obtain ⟨reached, reachedEq, reachedTracks⟩ := serverTracks.step event
      obtain rfl := Except.ok.inj (reachedEq.symm.trans stepped)
      exact ⟨reachedTracks, (serverDelivers.step serverTracks met stepped).1⟩
    · rintro server event next ⟨serverTracks, serverDelivers⟩ met complete stepped
      exact (serverDelivers.step serverTracks met stepped).2 complete
    · intro server event error _ raised
      cases event with
      | fanout =>
        simp only [AsyncEngine.step] at raised
        simp only [Unsplit]
        split at raised
        case h_1 stopped => rw [stopped]; trivial
        case h_2 => cases raised
      | _ => trivial
    · exact fun request done => absurd done (by simp [AsyncEngine.new])

/-- One token and its outcome, with a `_fanout` going on at the same time. -/
def racing (between : List AsyncEngine.ThreadEvent) (later : List AsyncEngine.Event) : List AsyncEngine.Event :=
  [.submit 0 false, .fanout [], .thread .take, .thread .apply, .thread .admitRequests, .fanout between] ++ later

/-- The server the race is on. -/
abbrev racers : AsyncEngine Nat Unit := .new counting 12 1 true 0 (competing 4) ()

theorem done_after_last_token_iff_racing :
    0 < 1 ∧
      Along (AsyncEngine.step counting) Renewed racers
        (racing [.emit] [.thread .report, .fanout [], .get 0]) ∧
      ((∃ server, racers.after counting
          (racing [.emit] [.thread .report, .fanout [], .get 0]) = .ok server) ∧
        (Throughout (AsyncEngine.step counting) Complete racers
            (racing [.emit] [.thread .report, .fanout [], .get 0]) ↔
          Along (AsyncEngine.step counting) (Unsplit counting) racers
            (racing [.emit] [.thread .report, .fanout [], .get 0]))) ∧
      Yields (racers.after counting
        (racing [.emit] [.thread .report, .fanout [], .get 0])) (fun server =>
          server.stream 0 = ⟨[], some .length, [4]⟩ ∧ server.emittedFor 0 = [4]) := by
  have renewed : Along (AsyncEngine.step counting) Renewed racers
      (racing [.emit] [.thread .report, .fanout [], .get 0]) := by decide +kernel
  exact ⟨Nat.one_pos, renewed, done_after_last_token_iff counting 12 1 true 0 (competing 4) () Nat.one_pos _ renewed,
    by decide +kernel⟩

/-- The thread appends the only token of request 0 after the first drain and its outcome before the
second. -/
theorem done_before_last_token :
    Along (AsyncEngine.step counting) Renewed racers
        (racing [.emit, .report] []) ∧
      Yields (racers.after counting (racing [.emit, .report] []))
        (fun server => server.stream 0 = ⟨[], some .length, []⟩ ∧ server.emittedFor 0 = [4]) := by
  decide +kernel

end Nanoserve.Verified
