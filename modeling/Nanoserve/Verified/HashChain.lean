import Nanoserve.Engine.PrefixCache

/-! # Chained hashes

A key of the prefix cache stands for everything up to and including its block.
-/

namespace Nanoserve.Verified

open Engine PrefixCache List

/-- The `(parent, tokens)` pairs hashed along consecutive blocks. -/
def linksFrom (blockHash : Int → List Nat → Int) (parent : Int) : List (List Nat) → List (Int × List Nat)
  | [] => []
  | block :: blocks => (parent, block) :: linksFrom blockHash (blockHash parent block) blocks

def links (blockHash : Int → List Nat → Int) (blockSize : Nat) (tokens : List Nat) : List (Int × List Nat) :=
  linksFrom blockHash ROOT_HASH (fullBlocks blockSize tokens)

/-- No collision among the pairs hashed for the token lists that occur. -/
structure CollisionFree (blockHash : Int → List Nat → Int) (blockSize : Nat) (Occurs : List Nat → Prop) : Prop where
  injective : ∀ first second, Occurs first → Occurs second →
    ∀ left ∈ links blockHash blockSize first, ∀ right ∈ links blockHash blockSize second,
    blockHash left.1 left.2 = blockHash right.1 right.2 → left = right
  rootless : ∀ tokens, Occurs tokens → ∀ link ∈ links blockHash blockSize tokens,
    blockHash link.1 link.2 ≠ ROOT_HASH

variable {blockHash : Int → List Nat → Int} {size : Nat}
variable {index : Nat} {tokens : List Nat} {hash : Int} {Occurs : List Nat → Prop}

instance (prompts : List (List Nat)) : Decidable (CollisionFree blockHash size (· ∈ prompts)) :=
  decidable_of_iff
    ((∀ first ∈ prompts, ∀ second ∈ prompts, ∀ left ∈ links blockHash size first, ∀ right ∈ links blockHash size second,
        blockHash left.1 left.2 = blockHash right.1 right.2 → left = right) ∧
      ∀ tokens ∈ prompts, ∀ link ∈ links blockHash size tokens, blockHash link.1 link.2 ≠ ROOT_HASH)
    ⟨fun both => ⟨fun first second occurs also => both.1 first occurs second also, both.2⟩,
      fun free => ⟨fun first occurs second also => free.injective first second occurs also, free.rootless⟩⟩

theorem chainFrom_eq_map (parent : Int) (blocks : List (List Nat)) :
    chainFrom blockHash parent blocks = (linksFrom blockHash parent blocks).map fun link => blockHash link.1 link.2 := by
  induction blocks generalizing parent with
  | nil => rfl
  | cons _ _ ih => simp [chainFrom, linksFrom, ih]

theorem hashChain_eq_map (tokens : List Nat) :
    hashChain blockHash size tokens =
      (links blockHash size tokens).map fun link => blockHash link.1 link.2 :=
  chainFrom_eq_map _ _

theorem map_snd_linksFrom (parent : Int) (blocks : List (List Nat)) :
    (linksFrom blockHash parent blocks).map Prod.snd = blocks := by
  induction blocks generalizing parent with
  | nil => rfl
  | cons _ _ ih => simp [linksFrom, ih]

@[simp] theorem length_fullBlocks (tokens : List Nat) :
    (fullBlocks size tokens).length = tokens.length / size := by
  simp [fullBlocks]

@[simp] theorem length_links (tokens : List Nat) :
    (links blockHash size tokens).length = tokens.length / size := by
  rw [← length_fullBlocks, ← map_snd_linksFrom ROOT_HASH (fullBlocks size tokens), length_map]
  rfl

@[simp] theorem length_hashChain (tokens : List Nat) :
    (hashChain blockHash size tokens).length = tokens.length / size := by
  rw [hashChain_eq_map, length_map, length_links]

theorem linksFrom_parent {parent : Int} {blocks : List (List Nat)} {link : Int × List Nat}
    (placed : (linksFrom blockHash parent blocks)[index]? = some link) :
    (parent :: chainFrom blockHash parent blocks)[index]? = some link.1 := by
  induction blocks generalizing parent index with
  | nil => simp [linksFrom] at placed
  | cons _ _ ih =>
    cases index with
    | zero =>
      simp only [linksFrom, getElem?_cons_zero, Option.some.injEq] at placed
      simp [← placed]
    | succ =>
      exact ih placed

theorem getElem?_hashChain (placed : (hashChain blockHash size tokens)[index]? = some hash) :
    ∃ link, (links blockHash size tokens)[index]? = some link ∧ blockHash link.1 link.2 = hash := by
  rw [hashChain_eq_map, getElem?_map, Option.map_eq_some_iff] at placed
  exact placed

theorem links_block {link : Int × List Nat} (placed : (links blockHash size tokens)[index]? = some link) :
    (fullBlocks size tokens)[index]? = some link.2 := by
  rw [← map_snd_linksFrom ROOT_HASH (fullBlocks size tokens), getElem?_map]
  exact Option.map_eq_some_iff.mpr ⟨link, placed, rfl⟩

theorem chain_unique (collisionFree : CollisionFree blockHash size Occurs) {first second : List Nat}
    (firstOccurs : Occurs first) (secondOccurs : Occurs second) (firstIndex secondIndex : Nat) (hash : Int)
    (firstPlaced : (hashChain blockHash size first)[firstIndex]? = some hash)
    (secondPlaced : (hashChain blockHash size second)[secondIndex]? = some hash) :
    firstIndex = secondIndex ∧
      ∀ index, index ≤ firstIndex → (fullBlocks size first)[index]? = (fullBlocks size second)[index]? := by
  obtain ⟨left, leftPlaced, leftHash⟩ := getElem?_hashChain firstPlaced
  obtain ⟨right, rightPlaced, rightHash⟩ := getElem?_hashChain secondPlaced
  have same := collisionFree.injective first second firstOccurs secondOccurs left (mem_of_getElem? leftPlaced)
    right (mem_of_getElem? rightPlaced) (leftHash.trans rightHash.symm)
  subst same
  -- The two links have one parent, the hash before them in both chains.
  have leftParent := linksFrom_parent leftPlaced
  have rightParent := linksFrom_parent rightPlaced
  cases firstIndex with
  | zero =>
    rw [getElem?_cons_zero, Option.some.injEq] at leftParent
    cases secondIndex with
    | zero =>
      refine ⟨rfl, fun index le => ?_⟩
      rw [Nat.le_zero.mp le, links_block leftPlaced, links_block rightPlaced]
    | succ =>
      rw [getElem?_cons_succ] at rightParent
      obtain ⟨link, linkPlaced, linkHash⟩ := getElem?_hashChain rightParent
      rw [← leftParent] at linkHash
      exact absurd linkHash (collisionFree.rootless second secondOccurs link (mem_of_getElem? linkPlaced))
  | succ firstBefore =>
    rw [getElem?_cons_succ] at leftParent
    cases secondIndex with
    | zero =>
      rw [getElem?_cons_zero, Option.some.injEq] at rightParent
      obtain ⟨link, linkPlaced, linkHash⟩ := getElem?_hashChain leftParent
      rw [← rightParent] at linkHash
      exact absurd linkHash (collisionFree.rootless first firstOccurs link (mem_of_getElem? linkPlaced))
    | succ secondBefore =>
      rw [getElem?_cons_succ] at rightParent
      obtain ⟨indices, blocks⟩ :=
        chain_unique collisionFree firstOccurs secondOccurs firstBefore secondBefore left.1 leftParent rightParent
      refine ⟨by rw [indices], fun index le => ?_⟩
      rcases Nat.lt_or_eq_of_le le with below | rfl
      · exact blocks index (Nat.le_of_lt_succ below)
      · subst indices
        rw [links_block leftPlaced, links_block rightPlaced]

theorem nodup_hashChain (collisionFree : CollisionFree blockHash size Occurs) (occurs : Occurs tokens) :
    (hashChain blockHash size tokens).Nodup := by
  rw [nodup_iff_getElem?_ne_getElem?]
  intro first second lt inChain same
  obtain ⟨hash, placed⟩ : ∃ hash, (hashChain blockHash size tokens)[second]? = some hash :=
    ⟨_, getElem?_eq_getElem inChain⟩
  have unique := chain_unique collisionFree occurs occurs first second hash (same.trans placed) placed
  omega

theorem getElem?_fullBlocks (lt : index < tokens.length / size) :
    (fullBlocks size tokens)[index]? = some ((tokens.drop (index * size)).take size) := by
  simp [fullBlocks, lt]

theorem context_unique (collisionFree : CollisionFree blockHash size Occurs) (pos : 0 < size)
    {first second : List Nat} (firstOccurs : Occurs first) (secondOccurs : Occurs second)
    {firstIndex secondIndex : Nat} (firstPlaced : (hashChain blockHash size first)[firstIndex]? = some hash)
    (secondPlaced : (hashChain blockHash size second)[secondIndex]? = some hash) :
    firstIndex = secondIndex ∧
      ∀ position, position < (firstIndex + 1) * size → first.getD position 0 = second.getD position 0 := by
  obtain ⟨rfl, blocks⟩ := chain_unique collisionFree firstOccurs secondOccurs _ _ hash firstPlaced secondPlaced
  refine ⟨rfl, fun position lt => ?_⟩
  have inFirst := (List.getElem?_eq_some_iff.mp firstPlaced).1
  have inSecond := (List.getElem?_eq_some_iff.mp secondPlaced).1
  rw [length_hashChain] at inFirst inSecond
  have le : position / size ≤ firstIndex := Nat.le_of_lt_succ ((Nat.div_lt_iff_lt_mul pos).mpr lt)
  have same := blocks _ le
  rw [getElem?_fullBlocks (Nat.lt_of_le_of_lt le inFirst), getElem?_fullBlocks (Nat.lt_of_le_of_lt le inSecond),
    Option.some.injEq] at same
  have split : position / size * size + position % size = position := by
    rw [Nat.mul_comm]
    exact Nat.div_add_mod position size
  have offset := Nat.mod_lt position pos
  have read := congrArg (fun block => block[position % size]?) same
  simp only [getElem?_take_of_lt offset, getElem?_drop, split] at read
  rw [getD_eq_getElem?_getD, getD_eq_getElem?_getD, read]

theorem hashChain_take {count : Nat} (pos : 0 < size)
    (placed : (hashChain blockHash size (tokens.take count))[index]? = some hash) :
    (hashChain blockHash size tokens)[index]? = some hash := by
  have blocks : fullBlocks size (tokens.take count) <+: fullBlocks size tokens := by
    refine prefix_iff_getElem?.mpr fun position inTaken => ?_
    rw [length_fullBlocks] at inTaken
    have inTokens : position < tokens.length / size := by
      refine Nat.lt_of_lt_of_le inTaken (Nat.div_le_div_right ?_)
      simp only [length_take]
      omega
    rw [getElem?_fullBlocks inTokens, ← getElem?_eq_getElem (by omega), getElem?_fullBlocks inTaken,
      drop_take, take_take]
    have whole : (position + 1) * size ≤ (tokens.take count).length :=
      (Nat.le_div_iff_mul_le pos).mp inTaken
    rw [length_take, Nat.add_mul] at whole
    have fits : min size (count - position * size) = size := by omega
    rw [fits]
  have chained : ∀ (front whole : List (List Nat)) (parent : Int), front <+: whole →
      chainFrom blockHash parent front <+: chainFrom blockHash parent whole := by
    intro front
    induction front with
    | nil => intro whole parent _; exact nil_prefix
    | cons _ _ ih =>
      intro whole parent isPrefix
      obtain ⟨_, rfl⟩ := isPrefix
      simp only [cons_append, chainFrom, prefix_cons_inj]
      exact ih _ _ (prefix_append _ _)
  have inTaken := (List.getElem?_eq_some_iff.mp placed).1
  have agree := prefix_iff_getElem?.mp (chained _ _ ROOT_HASH blocks) index inTaken
  rw [hashChain, agree, ← placed]
  exact (getElem?_eq_getElem inTaken).symm

theorem nodup_hashChain_take (count : Nat) (pos : 0 < size)
    (nodup : (hashChain blockHash size tokens).Nodup) :
    (hashChain blockHash size (tokens.take count)).Nodup := by
  rw [nodup_iff_getElem?_ne_getElem?] at nodup ⊢
  intro first second lt inTaken same
  obtain ⟨hash, placed⟩ : ∃ hash, (hashChain blockHash size (tokens.take count))[second]? = some hash :=
    ⟨_, getElem?_eq_getElem inTaken⟩
  have secondPlaced := hashChain_take pos placed
  have firstPlaced := hashChain_take pos (same.trans placed)
  exact nodup first second lt (List.getElem?_eq_some_iff.mp secondPlaced).1 (firstPlaced.trans secondPlaced.symm)

end Nanoserve.Verified
