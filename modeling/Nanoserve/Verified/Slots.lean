import Nanoserve.Engine.StaticCache
import Nanoserve.Lib.Runs

/-! # Who has which slot

The slots in use are those of the caches that have not been freed, as long as nobody frees a cache a
second time whose slot somebody else has by then.
-/

namespace Nanoserve.Verified

open Engine Lib List

variable {V : Type} {sess next : SlotSession V} {call : SlotCall}

/-- The free list and the live slots are all slots, each once. -/
def SlotsSplit (session : SlotSession V) : Prop :=
  (session.pool.freeList ++ session.pool.live).Perm (range session.pool.numSlots)

/-- If the call frees a cache again, it does nothing. -/
def FreesOnce (session : SlotSession V) (call : SlotCall) : Prop :=
  ∀ handle cache, call = .free handle → session.handles[handle]? = some (cache, true) →
    session.pool.free cache = session.pool

/-- If the call frees a cache again, nobody else has its slot. -/
def NotStale (session : SlotSession V) (call : SlotCall) : Prop :=
  ∀ handle cache, call = .free handle → session.handles[handle]? = some (cache, true) → cache.slot ∉ session.unfreed

/-! ## One call -/

section Pool

variable {pool : StaticCachePool V} {cache : StaticKVCache}

theorem allocate_inv {taken : StaticCachePool V} {expectedLen : Option Nat}
    (nodup : (pool.freeList ++ pool.live).Nodup) (allocated : pool.allocate expectedLen = some (cache, taken)) :
    pool.freeList = cache.slot :: taken.freeList ∧ taken.live = pool.live ++ [cache.slot] ∧
      taken.numSlots = pool.numSlots := by
  unfold StaticCachePool.allocate at allocated
  split at allocated
  · cases allocated
  · next slot freeList listed =>
    cases allocated
    rw [listed, cons_append, nodup_cons] at nodup
    exact ⟨listed, if_neg fun live => nodup.1 (mem_append_right _ live), rfl⟩

theorem free_live : (pool.free cache).live = pool.live.erase cache.slot := by
  unfold StaticCachePool.free
  split
  · rfl
  · next absent => exact (erase_of_not_mem absent).symm

theorem free_eq_self_iff : pool.free cache = pool ↔ cache.slot ∉ pool.live := by
  constructor
  · intro same live
    have shorter := length_erase_of_mem live
    have pos := length_pos_of_mem live
    rw [← free_live, same] at shorter
    omega
  · exact fun absent => if_neg absent

end Pool

inductive SlotStep (session : SlotSession V) : SlotCall → SlotSession V → Prop
  | full (expectedLen : Option Nat) : SlotStep session (.allocate expectedLen) session
  | allocated (expectedLen : Option Nat) (cache : StaticKVCache) (pool : StaticCachePool V)
      (taken : session.pool.allocate expectedLen = some (cache, pool)) :
      SlotStep session (.allocate expectedLen) { pool, handles := session.handles ++ [(cache, false)] }
  | freed (before after : List (StaticKVCache × Bool)) (cache : StaticKVCache) (again : Bool)
      (handles : session.handles = before ++ (cache, again) :: after) :
      SlotStep session (.free before.length)
        { pool := session.pool.free cache, handles := before ++ (cache, true) :: after }

theorem SlotStep.of_step (went : sess.step call = .ok next) : SlotStep sess call next := by
  cases call with
  | allocate expectedLen =>
    simp only [SlotSession.step] at went
    split at went
    · cases went
      exact .full expectedLen
    · next cache pool taken =>
      cases went
      exact .allocated expectedLen cache pool taken
  | free =>
    simp only [SlotSession.step] at went
    split at went
    · cases went
    · next cache again placed =>
      cases went
      obtain ⟨lt, same⟩ := List.getElem?_eq_some_iff.mp placed
      obtain ⟨before, after, handles, rfl, set⟩ := exists_of_set lt
      rw [set]
      exact .freed before after cache again (by rw [handles, same])

theorem SlotsSplit.nodup (split : SlotsSplit sess) : (sess.pool.freeList ++ sess.pool.live).Nodup :=
  split.nodup_iff.mpr nodup_range

theorem SlotsSplit.step (split : SlotsSplit sess) (went : sess.step call = .ok next) : SlotsSplit next := by
  cases SlotStep.of_step went with
  | full => exact split
  | allocated _ _ _ taken =>
    obtain ⟨listed, live, slots⟩ := allocate_inv split.nodup taken
    rw [SlotsSplit, listed] at split
    simp only [SlotsSplit, live, slots, ← append_assoc]
    exact (perm_append_singleton _ _).trans split
  | freed _ _ cache =>
    by_cases live : cache.slot ∈ sess.pool.live
    · simp only [SlotsSplit, StaticCachePool.free, if_pos live]
      refine .trans ?_ split
      exact (perm_middle.symm.trans ((perm_cons_erase live).symm.append_left _))
    · simp only [SlotsSplit, free_eq_self_iff.mpr live]
      exact split

def LiveUnfreed (session : SlotSession V) : Prop := session.pool.live.Perm session.unfreed

theorem freesOnce_iff (live : LiveUnfreed sess) : FreesOnce sess call ↔ NotStale sess call := by
  simp only [FreesOnce, NotStale, free_eq_self_iff, live.mem_iff]

theorem notStale_free {before after : List (StaticKVCache × Bool)} {cache : StaticKVCache} {again : Bool}
    (handles : sess.handles = before ++ (cache, again) :: after) :
    NotStale sess (.free before.length) ↔ (again = true → cache.slot ∉ sess.unfreed) := by
  have placed : sess.handles[before.length]? = some (cache, again) := by simp [handles]
  constructor
  · rintro notStale rfl
    exact notStale _ cache rfl placed
  · rintro fresh _ other ⟨⟩ freed
    rw [placed] at freed
    cases freed
    exact fresh rfl

theorem LiveUnfreed.step_iff (split : SlotsSplit sess) (live : LiveUnfreed sess)
    (went : sess.step call = .ok next) : LiveUnfreed next ↔ NotStale sess call := by
  cases SlotStep.of_step went with
  | full => exact iff_of_true live nofun
  | allocated _ cache pool taken =>
    obtain ⟨-, liveEq, -⟩ := allocate_inv split.nodup taken
    have grown : (⟨pool, sess.handles ++ [(cache, false)]⟩ : SlotSession V).unfreed = sess.unfreed ++ [cache.slot] := by
      simp [SlotSession.unfreed]
    refine iff_of_true ?_ nofun
    rw [LiveUnfreed, liveEq, grown]
    exact live.append_right _
  | freed before after cache again handles =>
    rw [notStale_free handles, LiveUnfreed, free_live]
    cases again with
    | false =>
      refine iff_of_true ?_ nofun
      have middle : sess.unfreed.Perm
          (cache.slot :: (⟨sess.pool, before ++ (cache, true) :: after⟩ : SlotSession V).unfreed) := by
        simp [SlotSession.unfreed, handles, perm_middle]
      have erased := (live.trans middle).erase cache.slot
      rwa [erase_cons_head] at erased
    | true =>
      -- The caches that have not been freed are the same as before.
      have same : (⟨sess.pool.free cache, before ++ (cache, true) :: after⟩ : SlotSession V).unfreed = sess.unfreed := by
        rw [SlotSession.unfreed, SlotSession.unfreed, handles]
      rw [same]
      constructor
      · intro kept _ stale
        have shorter := length_erase_of_mem (live.mem_iff.mpr stale)
        have pos := length_pos_of_mem stale
        rw [kept.length_eq, live.length_eq] at shorter
        omega
      · intro fresh
        rw [erase_of_not_mem fun inUse => fresh rfl (live.mem_iff.mp inUse)]
        exact live

/-- The free list and the live slots split the pool whatever is called. That nobody shares a slot,
and that freeing a cache again does nothing, is so exactly if no cache is freed again while somebody
else has its slot. -/
theorem slots_never_shared_iff (numSlots : Nat) (maxSeqLen : Option Nat) (maxPositionEmbeddings : Nat) (zero : V)
    (calls : List SlotCall) :
    let session : SlotSession V := { pool := .new numSlots maxSeqLen maxPositionEmbeddings zero }
    Throughout SlotSession.step SlotsSplit session calls ∧
      (Throughout SlotSession.step (fun reached => reached.unfreed.Nodup) session calls ∧
          Along SlotSession.step FreesOnce session calls ↔
        Along SlotSession.step NotStale session calls) := by
  intro session
  have split : SlotsSplit session := by
    simp [SlotsSplit, session, StaticCachePool.new]
  have live : LiveUnfreed session := List.Perm.refl _
  have splitThroughout : Throughout SlotSession.step SlotsSplit session calls := fun past reached _ ran =>
    @run_preserves _ _ _ SlotSession.step SlotsSplit (fun _ _ => True) (fun _ _ _ held _ => held.step) past session
      reached split (along_trivial (fun _ _ => trivial) past session) ran
  have tracked : Throughout SlotSession.step LiveUnfreed session calls ↔ Along SlotSession.step NotStale session calls := by
    refine along_iff_throughout (fun _ _ _ held => held.step) (fun _ _ _ held live => live.step_iff held) ?_ split live
    rintro state call error - stepped handle cache rfl placed
    simp [SlotSession.step, placed] at stepped
  -- Under either condition the two say the same of every call.
  have agree {Assumed : SlotSession V → SlotCall → Prop}
      (fresh : ∀ state call, LiveUnfreed state → Assumed state call → NotStale state call)
      (given : Along SlotSession.step Assumed session calls) :
      Along SlotSession.step FreesOnce session calls ↔ Along SlotSession.step NotStale session calls :=
    @along_congr _ _ _ SlotSession.step (fun state => SlotsSplit state ∧ LiveUnfreed state) Assumed FreesOnce NotStale
      (fun state call _ held assumed stepped =>
        ⟨held.1.step stepped, (held.2.step_iff held.1 stepped).mpr (fresh state call held.2 assumed)⟩)
      (fun _ _ held => freesOnce_iff held.2) calls session ⟨split, live⟩ given
  refine ⟨splitThroughout, ?_, ?_⟩
  · rintro ⟨-, once⟩
    exact (agree (fun _ _ live => (freesOnce_iff live).mp) once).mp once
  · intro notStale
    refine ⟨fun past reached begins ran => ?_, (agree (fun _ _ _ => id) notStale).mpr notStale⟩
    have nodup := (splitThroughout past reached begins ran).nodup
    exact (tracked.mpr notStale past reached begins ran).nodup_iff.mp (List.nodup_append.mp nodup).2.1

/-- A pool of one slot. -/
theorem stale_free_shares_slot :
    let session : SlotSession Nat := { pool := .new 1 (some 4) 512 0 }
    Yields (run SlotSession.step session [.allocate none, .free 0, .allocate none])
        (fun reached => reached.pool.freeList = [] ∧ reached.unfreed = [0]) ∧
      Yields (run SlotSession.step session [.allocate none, .free 0, .allocate none, .free 0])
        (fun reached => reached.pool.freeList = [0] ∧ reached.unfreed = [0]) ∧
      Yields (run SlotSession.step session [.allocate none, .free 0, .allocate none, .free 0, .allocate none])
        fun reached => reached.unfreed = [0, 0] := by
  decide

end Nanoserve.Verified
