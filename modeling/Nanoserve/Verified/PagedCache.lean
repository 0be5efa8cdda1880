import Nanoserve.Verified.Allocator

/-! # One sequence of a paged pool

What growing, writing, forking and freeing one sequence does to it and to everybody else.
-/

namespace Nanoserve.Verified

open Engine Lib List
open PagedKVCache (Paged blockTable unshareTail appendBlocks appendBlock writeLayer ensureCapacity)
open PagedCachePool (write)

variable {V : Type}
variable {size n : Nat} {pool : PagedCachePool V} {cache : PagedKVCache} {rest : Multiset Nat}
  {after before : Paged V}

/-- How a call that can raise ends. An allocator error is never acceptable. -/
def Ends {σ α : Type} (result : Except (Raised σ) α) (Returns : α → Prop) (Raises : σ → Prop) : Prop :=
  match result with
  | .ok value => Returns value
  | .error (.outOfBlocks left) => Raises left
  | .error (.runtimeError _) => False

theorem Ends.mono {σ α : Type} {result : Except (Raised σ) α} {Returns Returns' : α → Prop}
    {Raises Raises' : σ → Prop} (ends : Ends result Returns Raises)
    (returns : ∀ value, Returns value → Returns' value) (raises : ∀ left, Raises left → Raises' left) :
    Ends result Returns' Raises' := by
  unfold Ends at ends ⊢
  split at ends
  · exact returns _ ends
  · exact raises _ ends
  · exact ends

structure Addressed (blockSize : Nat) (cache : PagedKVCache) : Prop where
  nodup : cache.blockTable.Nodup
  slots : cache.slots = slots blockSize cache.blockTable

/-- Between forward passes the table is exactly as long as the tokens need. -/
structure WellFormed (blockSize : Nat) (cache : PagedKVCache) : Prop extends Addressed blockSize cache where
  covers : cache.blockTable.length = ceilDiv cache.numTokens blockSize

theorem WellFormed.empty (pos : 0 < size) : WellFormed size {} where
  nodup := nodup_nil
  slots := rfl
  covers := by simp [ceilDiv_zero pos]

theorem WellFormed.numTokens_le (pos : 0 < size) (formed : WellFormed size cache) :
    cache.numTokens ≤ cache.blockTable.length * size := by
  rw [formed.covers]
  exact le_ceilDiv_mul pos

/-- Nothing stored in the blocks of `held` differs between the two pools. -/
def Keeps (before after : PagedCachePool V) (held : Multiset Nat) : Prop :=
  ∀ layer slot, slot / before.blockSize ∈ held → after.kv layer slot = before.kv layer slot

theorem Keeps.refl (pool : PagedCachePool V) (held : Multiset Nat) : Keeps pool pool held :=
  fun _ _ _ => rfl

theorem Keeps.trans {first second third : PagedCachePool V} {held : Multiset Nat}
    (sameSize : second.blockSize = first.blockSize)
    (left : Keeps first second held) (right : Keeps second third held) : Keeps first third held := by
  intro layer slot member
  rw [right layer slot (by rw [sameSize]; exact member), left layer slot member]

theorem Keeps.mono {before after : PagedCachePool V} {held more : Multiset Nat} (keeps : Keeps before after more)
    (included : ∀ block ∈ held, block ∈ more) : Keeps before after held :=
  fun layer slot member => keeps layer slot (included _ member)

def Confined (before after : PagedCachePool V) (Touched : Nat → Prop) : Prop :=
  ∀ layer slot, ¬Touched (slot / before.blockSize) → after.kv layer slot = before.kv layer slot

theorem Confined.keeps {before after : PagedCachePool V} {Touched : Nat → Prop} {held : Multiset Nat}
    (confined : Confined before after Touched) (outside : ∀ block, Touched block → block ∉ held) :
    Keeps before after held :=
  fun layer slot member => confined layer slot fun touched => outside _ touched member

structure SameShape (before after : PagedCachePool V) : Prop where
  blockSize : after.blockSize = before.blockSize
  numHiddenLayers : after.numHiddenLayers = before.numHiddenLayers
  numBlocks : after.allocator.numBlocks = before.allocator.numBlocks

theorem SameShape.refl (pool : PagedCachePool V) : SameShape pool pool := ⟨rfl, rfl, rfl⟩

theorem SameShape.trans {first second third : PagedCachePool V} (left : SameShape first second)
    (right : SameShape second third) : SameShape first third where
  blockSize := right.blockSize.trans left.blockSize
  numHiddenLayers := right.numHiddenLayers.trans left.numHiddenLayers
  numBlocks := right.numBlocks.trans left.numBlocks

structure Appended (rest : Multiset Nat) (before after : Paged V) (count : Nat) : Prop where
  balanced : Balanced after.1.allocator (↑after.2.blockTable + rest)
  addressed : Addressed before.1.blockSize after.2
  table : ∃ fresh : List Nat, fresh.length = count ∧ after.2.blockTable = before.2.blockTable ++ fresh ∧
    ∀ block ∈ fresh, block ∉ rest
  shape : SameShape before.1 after.1
  kv : after.1.kv = before.1.kv
  numTokens : after.2.numTokens = before.2.numTokens
  start : after.2.start = before.2.start
  numFree : after.1.allocator.numFree + count = before.1.allocator.numFree

theorem Appended.push_front {alloc : BlockAllocator} {block count : Nat}
    (appended : Appended rest ({ pool with allocator := alloc }, cache.appendBlock pool.blockSize block) after count)
    (fresh : block ∉ rest) (sameBlocks : alloc.numBlocks = pool.allocator.numBlocks)
    (oneLess : alloc.numFree + 1 = pool.allocator.numFree) : Appended rest (pool, cache) after (count + 1) := by
  obtain ⟨taken, takenLength, tableEq, outside⟩ := appended.table
  refine ⟨appended.balanced, appended.addressed, ⟨block :: taken, by simp [takenLength], ?_, ?_⟩, ?_,
    appended.kv, appended.numTokens, appended.start, ?_⟩
  · simpa [appendBlock] using tableEq
  · intro other member
    rcases mem_cons.mp member with rfl | member
    · exact fresh
    · exact outside other member
  · exact ⟨appended.shape.blockSize, appended.shape.numHiddenLayers, appended.shape.numBlocks.trans sameBlocks⟩
  · have counted := appended.numFree
    simp only at counted ⊢
    omega

theorem appendBlocks_spec (count : Nat) (bal : Balanced pool.allocator (↑cache.blockTable + rest))
    (addressed : Addressed pool.blockSize cache) :
    Ends (appendBlocks pool cache count)
      (fun after => Appended rest (pool, cache) after count)
      (fun left => pool.allocator.numFree < count ∧
        ∃ taken, Appended rest (pool, cache) left taken) := by
  induction count generalizing pool cache with
  | zero =>
    exact ⟨bal, addressed, ⟨[], rfl, by simp, by simp⟩, .refl pool, rfl, rfl, rfl, rfl⟩
  | succ _ ih =>
    unfold appendBlocks
    cases allocated : pool.allocator.allocate with
    | none =>
      have exhausted := Balanced.allocate_none allocated
      refine ⟨by omega, 0, bal, addressed, ⟨[], rfl, by simp, by simp⟩, .refl pool, rfl, rfl, rfl, rfl⟩
    | some taken =>
      obtain ⟨block, alloc⟩ := taken
      obtain ⟨nextBalanced, fresh, sameBlocks, oneLess⟩ := bal.allocate_spec allocated
      have freshTable : block ∉ cache.blockTable := fun member => fresh (by simp [member])
      have freshRest : block ∉ rest := fun member => fresh (by simp [member])
      have tableBalanced : Balanced alloc (↑(cache.blockTable ++ [block]) + rest) := by
        rw [coe_concat_add]
        exact nextBalanced
      have tableAddressed : Addressed pool.blockSize (cache.appendBlock pool.blockSize block) := by
        constructor
        · exact nodup_append.mpr ⟨addressed.nodup, by simp, by
            intro first member second single same
            rw [mem_singleton] at single
            exact freshTable (single ▸ same ▸ member)⟩
        · simp [appendBlock, slots_append, addressed.slots]
      -- The recursive call starts from the table with `block` at its end.
      have continued := @ih { pool with allocator := alloc } _ tableBalanced tableAddressed
      refine Ends.mono continued ?_ ?_
      · intro after appended
        exact appended.push_front freshRest sameBlocks oneLess
      · rintro left ⟨short, taken, appended⟩
        simp only at short
        exact ⟨by omega, taken + 1, appended.push_front freshRest sameBlocks oneLess⟩

/-! ## Copy-on-write -/

structure Unshared (rest : Multiset Nat) (before after : Paged V) : Prop where
  balanced : Balanced after.1.allocator (↑after.2.blockTable + rest)
  addressed : Addressed before.1.blockSize after.2
  length : after.2.blockTable.length = before.2.blockTable.length
  front : after.2.blockTable.dropLast = before.2.blockTable.dropLast
  shape : SameShape before.1 after.1
  rows : ∀ layer position, layer < before.1.numHiddenLayers →
    position < before.2.blockTable.length * before.1.blockSize →
    after.1.kv layer (address before.1.blockSize after.2.blockTable position) =
      before.1.kv layer (address before.1.blockSize before.2.blockTable position)
  confined : Confined before.1 after.1 fun block => after.2.blockTable.getLast? = some block ∧ block ∉ rest
  numTokens : after.2.numTokens = before.2.numTokens
  start : after.2.start = before.2.start

theorem Unshared.refl (bal : Balanced pool.allocator (↑cache.blockTable + rest))
    (addressed : Addressed pool.blockSize cache) : Unshared rest (pool, cache) (pool, cache) :=
  ⟨bal, addressed, rfl, rfl, .refl pool, fun _ _ _ _ => rfl, fun _ _ _ => rfl, rfl, rfl⟩

def SoleTail (rest : Multiset Nat) (cache : PagedKVCache) : Prop :=
  ∀ tail, cache.blockTable.getLast? = some tail → tail ∉ rest

def tailNeed (pool : PagedCachePool V) (cache : PagedKVCache) : Nat :=
  match cache.blockTable.getLast? with
  | some tail => if pool.allocator.refCount tail > 1 then 1 else 0
  | none => 0

theorem address_replace_last {size : Nat} (pos : 0 < size) (front : List Nat) (page position : Nat)
    (lt : position < (front.length + 1) * size) :
    address size (front ++ [page]) position =
      if position / size < front.length then address size front position else page * size + position % size := by
  have inTable : position / size < front.length + 1 := (Nat.div_lt_iff_lt_mul pos).mpr lt
  split
  case isTrue inFront => exact address_append_left pos [page] ((Nat.div_lt_iff_lt_mul pos).mp inFront)
  case isFalse =>
    have atEnd : position / size = front.length := by omega
    simp [address, atEnd]

theorem copyBlock_kv {pool : PagedCachePool V} {src dst layer slot : Nat} (outside : slot / pool.blockSize ≠ dst) :
    (pool.copyBlock src dst).kv layer slot = pool.kv layer slot := by
  simp [PagedCachePool.copyBlock, outside]

theorem copyBlock_kv_dst {pool : PagedCachePool V} (pos : 0 < pool.blockSize) {src dst layer offset : Nat}
    (inModel : layer < pool.numHiddenLayers) (inBlock : offset < pool.blockSize) :
    (pool.copyBlock src dst).kv layer (dst * pool.blockSize + offset) =
      pool.kv layer (src * pool.blockSize + offset) := by
  have quotient : (dst * pool.blockSize + offset) / pool.blockSize = dst := by
    rw [Nat.mul_comm, Nat.mul_add_div pos, Nat.div_eq_of_lt inBlock, Nat.add_zero]
  have remainder : (dst * pool.blockSize + offset) % pool.blockSize = offset := by
    rw [Nat.mul_comm, Nat.mul_add_mod, Nat.mod_eq_of_lt inBlock]
  simp [PagedCachePool.copyBlock, inModel, quotient, remainder]

theorem unshareTail_spec (pos : 0 < pool.blockSize)
    (bal : Balanced pool.allocator (↑cache.blockTable + rest)) (addressed : Addressed pool.blockSize cache) :
    Ends (unshareTail pool cache)
      (fun after => Unshared rest (pool, cache) after ∧ SoleTail rest after.2 ∧
        after.1.allocator.numFree + tailNeed pool cache = pool.allocator.numFree)
      (fun left => left = (pool, cache) ∧ pool.allocator.numFree < tailNeed pool cache) := by
  have unchanged : Unshared rest (pool, cache) (pool, cache) := .refl bal addressed
  unfold unshareTail tailNeed
  cases lastEq : cache.blockTable.getLast? with
  | none => exact ⟨unchanged, by simp [SoleTail, lastEq], rfl⟩
  | some tail =>
    obtain ⟨front, tableEq⟩ : ∃ front, cache.blockTable = front ++ [tail] :=
      ⟨_, (dropLast_append_getLast? tail lastEq).symm⟩
    have nodup := addressed.nodup
    rw [tableEq, nodup_append] at nodup
    have held : (↑cache.blockTable + rest : Multiset Nat) = tail ::ₘ (↑front + rest) := by
      rw [tableEq, coe_concat_add]
    simp only
    by_cases sole : pool.allocator.refCount tail ≤ 1
    · rw [if_pos sole, if_neg (by omega)]
      refine ⟨unchanged, ?_, rfl⟩
      intro other otherLast
      rw [lastEq, Option.some.injEq] at otherLast
      subst otherLast
      have outside := (held ▸ bal).exclusive sole
      exact fun member => outside (by simp [member])
    · rw [if_neg sole, if_pos (by omega)]
      cases allocated : pool.allocator.allocate with
      | none =>
        have exhausted := Balanced.allocate_none allocated
        exact ⟨rfl, by omega⟩
      | some taken =>
        obtain ⟨fresh, _⟩ := taken
        obtain ⟨_, _, decremented, lastBalanced, unheld, sameBlocks, oneLess⟩ := (held ▸ bal).replace_spec sole allocated
        have freshFront : fresh ∉ front := fun member => unheld (by simp [member])
        have freshRest : fresh ∉ rest := fun member => unheld (by simp [member])
        simp only [PagedCachePool.copyBlock, decremented]
        refine ⟨⟨?_, ⟨?_, ?_⟩, ?_, ?_, ⟨rfl, rfl, sameBlocks⟩, ?_, ?_, rfl, rfl⟩, ?_, oneLess⟩
        · rw [tableEq, dropLast_concat, coe_concat_add]
          exact lastBalanced
        · simp only [tableEq, dropLast_concat]
          refine nodup_append.mpr ⟨nodup.1, by simp, ?_⟩
          intro first member second single same
          rw [mem_singleton] at single
          exact freshFront (single ▸ same ▸ member)
        · simp only [tableEq, dropLast_concat, slots_append, addressed.slots]
          simp
        · simp [tableEq]
        · simp [tableEq]
        · intro layer position inModel lt
          simp only [tableEq, dropLast_concat, length_append, length_singleton] at inModel lt ⊢
          rw [address_replace_last pos front fresh position lt, address_replace_last pos front tail position lt]
          split
          case isTrue inFront =>
            have block := getD_mem inFront
            rw [div_address pos, if_neg]
            rintro ⟨-, same⟩
            exact freshFront (same ▸ block)
          case isFalse =>
            have inBlock := Nat.mod_lt position pos
            exact @copyBlock_kv_dst V pool pos tail fresh layer _ inModel inBlock
        · intro layer slot untouched
          refine copyBlock_kv fun same => untouched ⟨?_, same ▸ freshRest⟩
          simp [same]
        · intro other otherLast
          simp only [getLast?_append, getLast?_singleton, Option.some_or, Option.some.injEq] at otherLast
          exact otherLast ▸ freshRest

/-! ## Growing -/

def growNeed (pool : PagedCachePool V) (cache : PagedKVCache) (n : Nat) : Nat :=
  (if cache.numTokens % pool.blockSize ≠ 0 then tailNeed pool cache else 0) +
    (ceilDiv (cache.numTokens + n) pool.blockSize - cache.blockTable.length)

/-- `n` more tokens fit, no row has changed, and the blocks from the one the next token falls into
on are in nobody else's hands. -/
structure Grown (rest : Multiset Nat) (before after : Paged V) (n : Nat) : Prop where
  balanced : Balanced after.1.allocator (↑after.2.blockTable + rest)
  wellFormed : WellFormed before.1.blockSize after.2
  numTokens : after.2.numTokens = before.2.numTokens + n
  start : after.2.start = before.2.start
  shape : SameShape before.1 after.1
  front : after.2.blockTable.take (before.2.numTokens / before.1.blockSize) =
    before.2.blockTable.take (before.2.numTokens / before.1.blockSize)
  rows : ∀ layer position, layer < before.1.numHiddenLayers → position < before.2.numTokens →
    after.1.kv layer (address before.1.blockSize after.2.blockTable position) =
      before.1.kv layer (address before.1.blockSize before.2.blockTable position)
  confined : Confined before.1 after.1 (· ∈ after.2.blockTable.drop (before.2.numTokens / before.1.blockSize))
  exclusive : ∀ block ∈ after.2.blockTable.drop (before.2.numTokens / before.1.blockSize), block ∉ rest
  numFree : after.1.allocator.numFree + growNeed before.1 before.2 n = before.1.allocator.numFree

structure Halted (rest : Multiset Nat) (before left : Paged V) : Prop where
  balanced : Balanced left.1.allocator (↑left.2.blockTable + rest)
  addressed : Addressed before.1.blockSize left.2
  shape : SameShape before.1 left.1
  confined : Confined before.1 left.1 fun block => block ∈ left.2.blockTable ∧ block ∉ rest

structure Readied (rest : Multiset Nat) (before middle : Paged V) : Prop where
  unshared : Unshared rest before middle
  soleTail : before.2.numTokens % before.1.blockSize ≠ 0 → SoleTail rest middle.2
  boundary : before.2.numTokens % before.1.blockSize = 0 → middle = before
  counted : middle.1.allocator.numFree +
    (if before.2.numTokens % before.1.blockSize ≠ 0 then tailNeed before.1 before.2 else 0) = before.1.allocator.numFree

theorem Appended.grown {middle : Paged V} (pos : 0 < before.1.blockSize)
    (formed : WellFormed before.1.blockSize before.2) (readied : Readied rest before middle)
    (appended : Appended rest middle after (ceilDiv (middle.2.numTokens + n) middle.1.blockSize - middle.2.blockTable.length)) :
    Grown rest before (after.1, { after.2 with numTokens := after.2.numTokens + n }) n := by
  obtain ⟨unshared, soleTail, boundary, _⟩ := readied
  obtain ⟨fresh, freshLength, tableEq, freshOutside⟩ := appended.table
  have sizeEq := unshared.shape.blockSize
  have tokensEq := unshared.numTokens
  have lengthEq := unshared.length
  rw [sizeEq, tokensEq, lengthEq] at freshLength
  have covered := formed.numTokens_le pos
  have middleCovered : before.2.numTokens ≤ middle.2.blockTable.length * before.1.blockSize := by
    rw [lengthEq]; exact covered
  have grows : before.2.blockTable.length ≤ ceilDiv (before.2.numTokens + n) before.1.blockSize := by
    rw [formed.covers]
    exact ceilDiv_mono pos (Nat.le_add_right _ _)
  have totalLength : after.2.blockTable.length = ceilDiv (before.2.numTokens + n) before.1.blockSize := by
    rw [tableEq, length_append, freshLength, lengthEq]
    omega
  have partLength (partlyFull : before.2.numTokens % before.1.blockSize ≠ 0) :
      middle.2.blockTable.length = before.2.numTokens / before.1.blockSize + 1 := by
    rw [lengthEq, formed.covers, ceilDiv_of_mod_ne_zero pos partlyFull]
  refine ⟨appended.balanced, ⟨⟨appended.addressed.nodup, ?_⟩, ?_⟩, ?_, appended.start.trans unshared.start,
    unshared.shape.trans appended.shape, ?_, ?_, ?_, ?_, ?_⟩
  · rw [← sizeEq]
    exact appended.addressed.slots
  · simp only [appended.numTokens, tokensEq]
    exact totalLength
  · simp only [appended.numTokens, tokensEq]
  · have full := formed.covers ▸ div_le_ceilDiv pos
    simp only [tableEq]
    rw [take_append_of_le_length (by rw [lengthEq]; exact full)]
    by_cases boundaryCase : before.2.numTokens % before.1.blockSize = 0
    · rw [boundary boundaryCase]
    · have last := partLength boundaryCase
      have frontEq := unshared.front
      rw [dropLast_eq_take, dropLast_eq_take, last, ← lengthEq, last, Nat.add_sub_cancel] at frontEq
      exact frontEq
  · intro layer position inModel lt
    have inMiddle := Nat.lt_of_lt_of_le lt middleCovered
    rw [appended.kv, tableEq, address_append_left pos fresh inMiddle]
    exact unshared.rows layer position inModel (Nat.lt_of_lt_of_le lt covered)
  · intro layer slot untouched
    rw [appended.kv]
    by_cases full : before.2.numTokens % before.1.blockSize = 0
    · rw [boundary full]
    · refine unshared.confined layer slot fun touched => untouched ?_
      rw [tableEq, drop_append]
      exact mem_append_left _ ((mem_drop_iff_getLast? (partLength full)).mpr touched.1)
  · -- A new position falls into the exclusive tail or into a fresh block.
    intro block member
    rw [tableEq, drop_append, mem_append] at member
    rcases member with inMiddle | inFresh
    · by_cases full : before.2.numTokens % before.1.blockSize = 0
      · rw [drop_eq_nil_of_le] at inMiddle
        · cases inMiddle
        · rw [lengthEq, formed.covers, ceilDiv_of_mod_eq_zero pos full]
      · exact soleTail full block ((mem_drop_iff_getLast? (partLength full)).mp inMiddle)
    · exact freshOutside block (mem_of_mem_drop inFresh)
  · have appendedFree := appended.numFree
    rw [sizeEq, tokensEq, lengthEq] at appendedFree
    simp only [growNeed]
    omega

theorem ensureCapacity_spec {middle : Paged V} (n : Nat) (pos : 0 < before.1.blockSize)
    (formed : WellFormed before.1.blockSize before.2) (readied : Readied rest before middle) :
    Ends (ensureCapacity middle.1 middle.2 n)
      (fun after => Grown rest before (after.1, { after.2 with numTokens := after.2.numTokens + n }) n)
      (fun left => Halted rest before left ∧ before.1.allocator.numFree < growNeed before.1 before.2 n) := by
  have unshared := readied.unshared
  have addressed : Addressed middle.1.blockSize middle.2 := by
    rw [unshared.shape.blockSize]
    exact unshared.addressed
  have appended := appendBlocks_spec (ceilDiv (middle.2.numTokens + n) middle.1.blockSize -
    middle.2.blockTable.length) unshared.balanced addressed
  refine appended.mono (fun after appended => appended.grown pos formed readied) ?_
  rintro left ⟨short, taken, appended⟩
  refine ⟨⟨appended.balanced, ?_, unshared.shape.trans appended.shape, ?_⟩, ?_⟩
  · have layout := appended.addressed
    rw [unshared.shape.blockSize] at layout
    exact layout
  · obtain ⟨_, -, tableEq, -⟩ := appended.table
    intro layer slot untouched
    rw [appended.kv]
    refine unshared.confined layer slot fun touched => untouched ⟨?_, touched.2⟩
    rw [tableEq]
    exact mem_append_left _ (mem_of_getLast? touched.1)
  · have counted := readied.counted
    rw [unshared.numTokens, unshared.length, unshared.shape.blockSize] at short
    simp only [growNeed]
    omega

theorem grow_spec {pool : PagedCachePool V} {cache : PagedKVCache} {rest : Multiset Nat} (n : Nat)
    (pos : 0 < pool.blockSize) (bal : Balanced pool.allocator (↑cache.blockTable + rest))
    (formed : WellFormed pool.blockSize cache) :
    Ends (PagedKVCache.grow pool cache n)
      (fun after => Grown rest (pool, cache) after n)
      (fun left => Halted rest (pool, cache) left ∧ pool.allocator.numFree < growNeed pool cache n) := by
  -- The first stage, whether or not there is a tail to copy.
  have started : Ends
      (if cache.numTokens % pool.blockSize ≠ 0 then unshareTail pool cache else .ok (pool, cache))
      (Readied rest (pool, cache))
      (fun left => left = (pool, cache) ∧ pool.allocator.numFree < growNeed pool cache n) := by
    by_cases partlyFull : cache.numTokens % pool.blockSize ≠ 0
    · rw [if_pos partlyFull]
      refine (unshareTail_spec pos bal formed.toAddressed).mono ?_ ?_
      · rintro middle ⟨unshared, soleTail, counted⟩
        refine ⟨unshared, fun _ => soleTail, fun full => absurd full partlyFull, ?_⟩
        rw [if_pos partlyFull]
        exact counted
      · rintro left ⟨same, short⟩
        simp only [growNeed, if_pos partlyFull]
        exact ⟨same, by omega⟩
    · rw [if_neg partlyFull]
      refine ⟨.refl bal formed.toAddressed, fun off => absurd off partlyFull, fun _ => rfl, ?_⟩
      rw [if_neg partlyFull]
      rfl
  unfold PagedKVCache.grow
  unfold Ends at started
  split at started
  case h_1 middle returned =>
    simp only [returned]
    have grown := ensureCapacity_spec n pos formed started
    unfold Ends at grown
    split at grown
    case h_1 after returnedToo =>
      simp only [returnedToo]
      exact grown
    case h_2 left raised =>
      simp only [raised]
      exact grown
    case h_3 => exact grown.elim
  case h_2 left raised =>
    obtain ⟨rfl, short⟩ := started
    simp only [raised]
    exact ⟨⟨bal, formed.toAddressed, .refl pool, fun _ _ _ => rfl⟩, short⟩
  case h_3 => exact started.elim

theorem Grown.refs_le (grown : Grown rest before after n)
    (bal : Balanced before.1.allocator (↑before.2.blockTable + rest)) {block : Nat} (member : block ∈ rest) :
    after.1.allocator.refs block ≤ before.1.allocator.refs block := by
  have kept : after.2.blockTable.count block ≤ before.2.blockTable.count block := by
    have outside := fun touched => grown.exclusive block touched member
    rw [← take_append_drop (before.2.numTokens / before.1.blockSize) after.2.blockTable, count_append,
      count_eq_zero.mpr outside, grown.front]
    exact (take_sublist _ _).count_le block
  rw [grown.balanced.refs, bal.refs, Multiset.count_add, Multiset.count_add, Multiset.coe_count,
    Multiset.coe_count]
  omega

theorem grow_ok (pos : 0 < pool.blockSize) (bal : Balanced pool.allocator (↑cache.blockTable + rest))
    (formed : WellFormed pool.blockSize cache) (enough : growNeed pool cache n ≤ pool.allocator.numFree) :
    ∃ after, PagedKVCache.grow pool cache n = .ok after ∧ Grown rest (pool, cache) after n := by
  have grown := grow_spec n pos bal formed
  unfold Ends at grown
  split at grown
  case h_1 after returned => exact ⟨after, returned, grown⟩
  case h_2 => exact absurd grown.2 (Nat.not_lt.mpr enough)
  case h_3 => exact grown.elim

/-- The rows of one layer at the first `count` positions of a table. -/
def tableRows (pool : PagedCachePool V) (table : List Nat) (count layer : Nat) : List V :=
  (range count).map fun position => pool.kv layer (address pool.blockSize table position)

@[simp] theorem length_tableRows (pool : PagedCachePool V) (table : List Nat) (count layer : Nat) :
    (tableRows pool table count layer).length = count := by
  simp [tableRows]

theorem writeSlots_eq (pos : 0 < size) (addressed : Addressed size cache)
    (fits : cache.start + n ≤ cache.blockTable.length * size) :
    cache.writeSlots n =
      (range n).map fun offset => address size cache.blockTable (cache.start + offset) := by
  rw [PagedKVCache.writeSlots, addressed.slots, take_drop_slots pos fits]

theorem div_writeSlots {slot : Nat} (pos : 0 < size) (addressed : Addressed size cache)
    (fits : cache.start + n ≤ cache.blockTable.length * size) (member : slot ∈ cache.writeSlots n) :
    slot / size ∈ cache.blockTable.drop (cache.start / size) := by
  rw [writeSlots_eq pos addressed fits] at member
  obtain ⟨_, inWindow, rfl⟩ := mem_map.mp member
  rw [mem_range] at inWindow
  rw [div_address pos]
  exact getD_mem_drop (Nat.div_le_div_right (Nat.le_add_right _ _))
    ((Nat.div_lt_iff_lt_mul pos).mpr (by omega))

structure Written (pool : PagedCachePool V) (cache : PagedKVCache) (layer : Nat) (k : List V)
    (rows : List V) (after : PagedCachePool V) : Prop where
  returned : rows = tableRows pool cache.blockTable cache.start layer ++ k
  stored : tableRows after cache.blockTable (cache.start + k.length) layer = rows
  otherLayers : ∀ other, other ≠ layer → after.kv other = pool.kv other
  confined : Confined pool after (· ∈ cache.blockTable.drop (cache.start / pool.blockSize))
  allocator : after.allocator = pool.allocator
  shape : SameShape pool after

theorem writeLayer_spec {layer : Nat} {k : List V} (pos : 0 < pool.blockSize)
    (addressed : Addressed pool.blockSize cache)
    (fits : cache.start + k.length ≤ cache.blockTable.length * pool.blockSize) :
    Written pool cache layer k (writeLayer pool cache layer k).1
      (writeLayer pool cache layer k).2 := by
  have window := writeSlots_eq pos addressed fits
  have windowNodup : ((range k.length).map fun offset =>
      address pool.blockSize cache.blockTable (cache.start + offset)).Nodup := by
    refine Nodup.map_on ?_ nodup_range
    intro first firstIn second secondIn same
    rw [mem_range] at firstIn secondIn
    have positions := address_injective pos addressed.nodup (by omega) (by omega) same
    omega
  -- The old positions are outside the window, the new ones read back what was written.
  have written : ∀ position, position < cache.start + k.length →
      scatter (pool.kv layer) (cache.writeSlots k.length) k
        (address pool.blockSize cache.blockTable position) =
      ((tableRows pool cache.blockTable cache.start layer ++ k)[position]?).getD
        (pool.kv layer (address pool.blockSize cache.blockTable position)) := by
    intro position lt
    rw [window]
    by_cases old : position < cache.start
    · rw [scatter_of_not_mem, getElem?_append_left (by simpa using old)]
      · simp [tableRows, old]
      · simp only [mem_map, mem_range, not_exists, not_and]
        intro offset inWindow same
        have positions := address_injective pos addressed.nodup (by omega) (by omega) same
        omega
    · obtain ⟨offset, rfl⟩ := Nat.exists_eq_add_of_le (Nat.le_of_not_lt old)
      have inWindow : offset < k.length := by omega
      have readBack := @scatter_getElem V (pool.kv layer) _ k windowNodup offset (by simpa using inWindow) inWindow
      simp only [getElem_map, getElem_range] at readBack
      rw [readBack, getElem?_append_right (by simp)]
      simp [inWindow]
  have gathered : tableRows (pool.write layer (cache.writeSlots k.length) k)
      cache.blockTable (cache.start + k.length) layer = tableRows pool cache.blockTable cache.start layer ++ k := by
    apply ext_getElem?
    intro position
    by_cases lt : position < cache.start + k.length
    · have inRows : position < (tableRows pool cache.blockTable cache.start layer ++ k).length := by simpa using lt
      have value := written position lt
      rw [getElem?_eq_getElem inRows] at value ⊢
      simp only [Option.getD_some] at value
      simp [tableRows, write, lt, value]
    · rw [getElem?_eq_none (by simpa using lt), getElem?_eq_none (by simpa using lt)]
  have read : (writeLayer pool cache layer k).1 =
      tableRows (pool.write layer (cache.writeSlots k.length) k)
        cache.blockTable (cache.start + k.length) layer := by
    simp only [writeLayer, PagedCachePool.gather, tableRows]
    rw [addressed.slots, take_slots pos fits, map_map]
    rfl
  refine ⟨read.trans gathered, read.symm, ?_, ?_, rfl, ⟨rfl, rfl, rfl⟩⟩
  · intro other differs
    simp [writeLayer, write, Function.update_of_ne differs]
  · intro other slot outside
    by_cases same : other = layer
    · subst same
      simp only [writeLayer, write, Function.update_self]
      exact scatter_of_not_mem fun member => outside (div_writeSlots pos addressed fits member)
    · simp [writeLayer, write, Function.update_of_ne same]

theorem fork_spec (bal : Balanced pool.allocator (↑cache.blockTable + rest)) :
    ∃ alloc, PagedKVCache.fork pool cache = .ok ({ pool with allocator := alloc },
        { blockTable := cache.blockTable, numTokens := cache.numTokens, slots := cache.slots }) ∧
      Balanced alloc (↑cache.blockTable + (↑cache.blockTable + rest)) ∧
      alloc.numBlocks = pool.allocator.numBlocks := by
  obtain ⟨alloc, shared, sharedBalanced, sameBlocks, -⟩ :=
    bal.increfAll_spec fun block member => Multiset.mem_add.mpr (.inl (Multiset.mem_coe.mpr member))
  refine ⟨alloc, ?_, sharedBalanced, sameBlocks⟩
  simp only [PagedKVCache.fork, shared]

theorem free_spec (bal : Balanced pool.allocator (↑cache.blockTable + rest)) :
    ∃ alloc, PagedKVCache.free pool cache = .ok ({ pool with allocator := alloc },
        { cache with blockTable := [], numTokens := 0, slots := [] }) ∧
      Balanced alloc rest ∧ alloc.numBlocks = pool.allocator.numBlocks ∧
      pool.allocator.numFree ≤ alloc.numFree := by
  obtain ⟨alloc, released, releasedBalanced, sameBlocks, noFewer⟩ := bal.decrefAll_spec
  refine ⟨alloc, ?_, releasedBalanced, sameBlocks, noFewer⟩
  simp only [PagedKVCache.free, released]

end Nanoserve.Verified
