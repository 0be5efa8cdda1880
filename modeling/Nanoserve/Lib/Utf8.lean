import Mathlib.Data.List.Basic

/-! # Decoding UTF-8 with replacement

A byte-at-a-time decoder that never fails: every maximal part of the input that no well-formed
character starts with is replaced by one U+FFFD.
-/

namespace Nanoserve.Lib.Utf8

open List

variable {bytes : List UInt8} {n v : Nat}

def replacement : Char := Char.ofNat 0xFFFD

/-- A character that was begun: the continuation bytes still owed, the range the
next one has to lie in, and the bits so far. -/
structure Begun where
  owed : Nat
  low : Nat
  high : Nat
  bits : Nat
deriving DecidableEq, Repr

/-- The first byte of a character. -/
def start (byte : UInt8) : List Char × Option Begun :=
  let b := byte.toNat
  if b < 0x80 then ([Char.ofNat b], none)
  else if b < 0xC2 then ([replacement], none)
  else if b < 0xE0 then ([], some ⟨1, 0x80, 0xBF, b - 0xC0⟩)
  -- No overlong forms, no surrogates, nothing above U+10FFFF.
  else if b = 0xE0 then ([], some ⟨2, 0xA0, 0xBF, 0⟩)
  else if b = 0xED then ([], some ⟨2, 0x80, 0x9F, 0xD⟩)
  else if b < 0xF0 then ([], some ⟨2, 0x80, 0xBF, b - 0xE0⟩)
  else if b = 0xF0 then ([], some ⟨3, 0x90, 0xBF, 0⟩)
  else if b < 0xF4 then ([], some ⟨3, 0x80, 0xBF, b - 0xF0⟩)
  else if b = 0xF4 then ([], some ⟨3, 0x80, 0x8F, 4⟩)
  else ([replacement], none)

/-- One byte: the characters it completes, and where it leaves the decoder. -/
def feed : Option Begun → UInt8 → List Char × Option Begun
  | none, byte => start byte
  | some begun, byte =>
    if begun.low ≤ byte.toNat ∧ byte.toNat ≤ begun.high then
      let bits := begun.bits * 64 + (byte.toNat - 0x80)
      if begun.owed ≤ 1 then ([Char.ofNat bits], none)
      else ([], some ⟨begun.owed - 1, 0x80, 0xBF, bits⟩)
    else (replacement :: (start byte).1, (start byte).2)

def decodeFrom : Option Begun → List UInt8 → List Char
  | none, [] => []
  | some _, [] => [replacement]
  | state, byte :: bytes => (feed state byte).1 ++ decodeFrom (feed state byte).2 bytes

def decode (bytes : List UInt8) : List Char := decodeFrom none bytes

/-- The text ends with the replacement character. -/
def Ragged (text : List Char) : Prop := text.getLast? = some replacement

instance (text : List Char) : Decidable (Ragged text) := inferInstanceAs (Decidable (_ = _))

@[simp] theorem decode_nil : decode [] = [] := rfl

theorem not_ragged_nil : ¬Ragged [] := by simp [Ragged]

theorem Ragged.of_append {front back : List Char} (ragged : Ragged back) : Ragged (front ++ back) := by
  rw [Ragged, getLast?_append, ragged]
  rfl

theorem decodeFrom_cons (state : Option Begun) (byte : UInt8) (bytes : List UInt8) :
    decodeFrom state (byte :: bytes) = (feed state byte).1 ++ decodeFrom (feed state byte).2 bytes := by
  cases state <;> rfl

theorem decodeFrom_append_of_not_ragged (state : Option Begun) (first second : List UInt8)
    (whole : ¬Ragged (decodeFrom state first)) :
    decodeFrom state (first ++ second) = decodeFrom state first ++ decode second := by
  induction first generalizing state with
  | nil =>
    cases state with
    | none => rfl
    | some => exact absurd rfl whole
  | cons _ _ ih =>
    rw [cons_append, decodeFrom_cons, decodeFrom_cons, append_assoc]
    rw [decodeFrom_cons] at whole
    rw [ih _ fun ragged => whole ragged.of_append]

theorem decode_append {first : List UInt8} (second : List UInt8) (whole : ¬Ragged (decode first)) :
    decode (first ++ second) = decode first ++ decode second :=
  decodeFrom_append_of_not_ragged none first second whole

/-! ## Every byte counts -/

theorem start_waits {byte : UInt8} (silent : (start byte).1 = []) : ∃ begun, (start byte).2 = some begun := by
  unfold start at silent ⊢
  dsimp only at silent ⊢
  split_ifs at silent ⊢ <;> exact ⟨_, rfl⟩

theorem decodeFrom_begun_ne_nil (begun : Begun) (bytes : List UInt8) : decodeFrom (some begun) bytes ≠ [] := by
  induction bytes generalizing begun with
  | nil => exact cons_ne_nil _ _
  | cons _ _ ih =>
    rw [decodeFrom_cons, feed]
    split
    · dsimp only
      split
      · exact cons_ne_nil _ _
      · exact ih _
    · exact cons_ne_nil _ _

theorem decode_eq_nil : decode bytes = [] ↔ bytes = [] := by
  constructor
  · intro nothing
    cases bytes with
    | nil => rfl
    | cons byte bytes =>
      rw [decode, decodeFrom_cons, append_eq_nil_iff] at nothing
      obtain ⟨begun, waits⟩ := start_waits nothing.1
      rw [show (feed none byte).2 = some begun from waits] at nothing
      exact absurd nothing.2 (decodeFrom_begun_ne_nil begun bytes)
  · rintro rfl
    rfl

/-! ## Where a character can begin

A byte that cannot continue a character begins anew whatever came before it, so from
such a byte on the text does not depend on the bytes before.
-/

def Continues (byte : UInt8) : Prop := 0x80 ≤ byte.toNat ∧ byte.toNat ≤ 0xBF

/-- A decoder between bytes, as the bytes before can have left it. -/
def Sound (state : Option Begun) : Prop := ∀ begun, state = some begun → 0x80 ≤ begun.low ∧ begun.high ≤ 0xBF

theorem sound_none : Sound none := by
  intro begun waits
  cases waits

theorem sound_start (byte : UInt8) : Sound (start byte).2 := by
  intro begun waits
  unfold start at waits
  dsimp only at waits
  split_ifs at waits <;> cases waits <;> exact ⟨Nat.le_of_ble_eq_true rfl, Nat.le_of_ble_eq_true rfl⟩

theorem Sound.feed {state : Option Begun} (sound : Sound state) (byte : UInt8) : Sound (feed state byte).2 := by
  cases state with
  | none => exact sound_start byte
  | some =>
    rw [Utf8.feed]
    split
    case isTrue =>
      split
      · exact sound_none
      · rintro _ ⟨⟩
        exact ⟨Nat.le_refl _, Nat.le_refl _⟩
    case isFalse => exact sound_start byte

theorem decodeFrom_lead {state : Option Begun} (sound : Sound state) {byte : UInt8} (lead : ¬Continues byte)
    (before after : List UInt8) :
    ∃ front, decodeFrom state (before ++ byte :: after) = front ++ decode (byte :: after) := by
  induction before generalizing state with
  | nil =>
    cases state with
    | none => exact ⟨[], rfl⟩
    | some begun =>
      have outside : ¬(begun.low ≤ byte.toNat ∧ byte.toNat ≤ begun.high) := by
        obtain ⟨low, high⟩ := sound begun rfl
        exact fun inside => lead ⟨Nat.le_trans low inside.1, Nat.le_trans inside.2 high⟩
      have anew : feed (some begun) byte = (replacement :: (start byte).1, (start byte).2) := if_neg outside
      refine ⟨[replacement], ?_⟩
      rw [nil_append, decodeFrom_cons, anew]
      rfl
  | cons first _ ih =>
    obtain ⟨front, rest⟩ := ih (sound.feed first)
    refine ⟨(feed state first).1 ++ front, ?_⟩
    rw [cons_append, decodeFrom_cons, rest, append_assoc]

theorem decode_continuations (all : ∀ byte ∈ bytes, Continues byte) :
    decode bytes = replicate bytes.length replacement := by
  induction bytes with
  | nil => rfl
  | cons byte _ ih =>
    obtain ⟨_, _⟩ := all byte mem_cons_self
    have alone : start byte = ([replacement], none) := by
      unfold start
      rw [if_neg (by omega), if_pos (by omega)]
    rw [decode, decodeFrom_cons, feed, alone, length_cons, replicate_succ]
    exact congrArg _ (ih fun other mem => all other (mem_cons_of_mem _ mem))

theorem Ragged.of_append_right {front back : List Char} (ragged : Ragged (front ++ back)) (ne : back ≠ []) :
    Ragged back := by
  rw [Ragged, getLast?_append_of_ne_nil _ ne] at ragged
  exact ragged

theorem ragged_replicate (ragged : Ragged (decode bytes)) (count : Nat) :
    Ragged (decode (replicate (count + 1) bytes).flatten) := by
  by_cases all : ∀ byte ∈ bytes, Continues byte
  · have every : ∀ byte ∈ (replicate (count + 1) bytes).flatten, Continues byte := by
      intro byte mem
      obtain ⟨copy, copied, inside⟩ := mem_flatten.mp mem
      rw [eq_of_mem_replicate copied] at inside
      exact all byte inside
    have length : (replicate (count + 1) bytes).flatten.length ≠ 0 := by
      intro empty
      rw [replicate_succ, flatten_cons, length_append] at empty
      rw [length_eq_zero_iff.mp (by omega : bytes.length = 0)] at ragged
      exact not_ragged_nil ragged
    rw [decode_continuations every, Ragged, getLast?_replicate, if_neg length]
  · -- The last copy reads as it does alone, from its first byte that can begin a character on.
    push Not at all
    obtain ⟨lead, mem, begins⟩ := all
    obtain ⟨before, after, split⟩ := append_of_mem mem
    obtain ⟨_, alone⟩ := decodeFrom_lead sound_none begins before after
    rw [split, decode, alone] at ragged
    have rest := ragged.of_append_right fun empty => cons_ne_nil _ _ (decode_eq_nil.mp empty)
    have copies : (replicate (count + 1) bytes).flatten =
        (replicate count bytes).flatten ++ before ++ lead :: after := by
      rw [replicate_succ', flatten_append, split]
      simp
    obtain ⟨_, repeated⟩ := decodeFrom_lead sound_none begins ((replicate count bytes).flatten ++ before) after
    rw [copies, decode, repeated]
    exact rest.of_append

/-! ## Encoding -/

theorem toNat_ofNat_of_lt (byte : n < 256) : (UInt8.ofNat n).toNat = n := by
  rw [UInt8.toNat_ofNat', Nat.mod_eq_of_lt byte]

theorem decodeFrom_last {low high bits : Nat} (byte : n < 256) (above : low ≤ n) (below : n ≤ high)
    (bytes : List UInt8) :
    decodeFrom (some ⟨1, low, high, bits⟩) (UInt8.ofNat n :: bytes) =
      Char.ofNat (bits * 64 + (n - 0x80)) :: decodeFrom none bytes := by
  simp only [decodeFrom_cons, feed, toNat_ofNat_of_lt byte, above, below, and_self, if_true, Nat.le_refl,
    singleton_append]

theorem decodeFrom_more {owed low high bits : Nat} (byte : n < 256) (above : low ≤ n) (below : n ≤ high)
    (bytes : List UInt8) :
    decodeFrom (some ⟨owed + 2, low, high, bits⟩) (UInt8.ofNat n :: bytes) =
      decodeFrom (some ⟨owed + 1, 0x80, 0xBF, bits * 64 + (n - 0x80)⟩) bytes := by
  simp only [decodeFrom_cons, feed, toNat_ofNat_of_lt byte, above, below, and_self, if_true,
    if_neg (show ¬owed + 2 ≤ 1 by omega), nil_append]
  rfl

theorem start_one (one : n < 0x80) : start (UInt8.ofNat n) = ([Char.ofNat n], none) := by
  simp only [start, toNat_ofNat_of_lt (show n < 256 by omega), one, if_true]

theorem start_two (low : 0xC2 ≤ n) (high : n < 0xE0) :
    start (UInt8.ofNat n) = ([], some ⟨1, 0x80, 0xBF, n - 0xC0⟩) := by
  simp only [start, toNat_ofNat_of_lt (show n < 256 by omega)]
  rw [if_neg (by omega), if_neg (by omega), if_pos high]

theorem start_three (low : 0xE0 ≤ n) (high : n < 0xF0) :
    start (UInt8.ofNat n) =
      ([], some ⟨2, if n = 0xE0 then 0xA0 else 0x80, if n = 0xED then 0x9F else 0xBF, n - 0xE0⟩) := by
  simp only [start, toNat_ofNat_of_lt (show n < 256 by omega)]
  rw [if_neg (by omega), if_neg (by omega), if_neg (by omega)]
  by_cases shortest : n = 0xE0
  · subst shortest
    rfl
  · by_cases surrogates : n = 0xED
    · subst surrogates
      rfl
    · rw [if_neg shortest, if_neg surrogates, if_pos high, if_neg shortest, if_neg surrogates]

theorem start_four (low : 0xF0 ≤ n) (high : n ≤ 0xF4) :
    start (UInt8.ofNat n) =
      ([], some ⟨3, if n = 0xF0 then 0x90 else 0x80, if n = 0xF4 then 0x8F else 0xBF, n - 0xF0⟩) := by
  simp only [start, toNat_ofNat_of_lt (show n < 256 by omega)]
  rw [if_neg (by omega), if_neg (by omega), if_neg (by omega), if_neg (by omega), if_neg (by omega), if_neg (by omega)]
  by_cases shortest : n = 0xF0
  · subst shortest
    rfl
  · by_cases last : n = 0xF4
    · subst last
      rfl
    · rw [if_neg shortest, if_neg last, if_pos (by omega), if_neg shortest, if_neg last]

-- Which byte comes out is plain arithmetic; the ranges of the first continuation
-- byte are where the shortest form and the absence of surrogates are needed.
theorem decodeFrom_two (low : 0x80 ≤ v) (high : v ≤ 0x7FF) (bytes : List UInt8) :
    decodeFrom none (UInt8.ofNat (v / 64 % 32 + 192) :: UInt8.ofNat (v % 64 + 128) :: bytes) =
      Char.ofNat v :: decodeFrom none bytes := by
  rw [decodeFrom_cons, feed, start_two (by omega) (by omega), nil_append,
    decodeFrom_last (by omega) (by omega) (by omega)]
  have bits : (v / 64 % 32 + 192 - 0xC0) * 64 + (v % 64 + 128 - 0x80) = v := by
    omega
  rw [bits]

theorem decodeFrom_three (low : 0x800 ≤ v) (high : v ≤ 0xFFFF) (scalar : v < 0xD800 ∨ 0xDFFF < v) (bytes : List UInt8) :
    decodeFrom none (UInt8.ofNat (v / 4096 % 16 + 224) :: UInt8.ofNat (v / 64 % 64 + 128) ::
      UInt8.ofNat (v % 64 + 128) :: bytes) = Char.ofNat v :: decodeFrom none bytes := by
  rw [decodeFrom_cons, feed, start_three (by omega) (by omega), nil_append,
    decodeFrom_more (by omega) (by split <;> omega) (by split <;> omega),
    decodeFrom_last (by omega) (by omega) (by omega)]
  have bits : ((v / 4096 % 16 + 224 - 0xE0) * 64 + (v / 64 % 64 + 128 - 0x80)) * 64 + (v % 64 + 128 - 0x80) = v := by
    omega
  rw [bits]

theorem decodeFrom_four (low : 0x10000 ≤ v) (high : v < 0x110000) (bytes : List UInt8) :
    decodeFrom none (UInt8.ofNat (v / 262144 % 8 + 240) :: UInt8.ofNat (v / 4096 % 64 + 128) ::
      UInt8.ofNat (v / 64 % 64 + 128) :: UInt8.ofNat (v % 64 + 128) :: bytes) =
      Char.ofNat v :: decodeFrom none bytes := by
  rw [decodeFrom_cons, feed, start_four (by omega) (by omega), nil_append,
    decodeFrom_more (by omega) (by split <;> omega) (by split <;> omega),
    decodeFrom_more (by omega) (by omega) (by omega), decodeFrom_last (by omega) (by omega) (by omega)]
  have bits : (((v / 262144 % 8 + 240 - 0xF0) * 64 + (v / 4096 % 64 + 128 - 0x80)) * 64 +
      (v / 64 % 64 + 128 - 0x80)) * 64 + (v % 64 + 128 - 0x80) = v := by
    omega
  rw [bits]

theorem decodeFrom_encodeChar (c : Char) (bytes : List UInt8) :
    decodeFrom none (String.utf8EncodeChar c ++ bytes) = c :: decodeFrom none bytes := by
  have valid : c.toNat < 0xD800 ∨ 0xDFFF < c.toNat ∧ c.toNat < 0x110000 := c.valid
  have lengths : String.utf8EncodeChar c =
      if c.toNat ≤ 127 then [UInt8.ofNat c.toNat]
      else if c.toNat ≤ 2047 then [UInt8.ofNat (c.toNat / 64 % 32 + 192), UInt8.ofNat (c.toNat % 64 + 128)]
      else if c.toNat ≤ 65535 then
        [UInt8.ofNat (c.toNat / 4096 % 16 + 224), UInt8.ofNat (c.toNat / 64 % 64 + 128), UInt8.ofNat (c.toNat % 64 + 128)]
      else
        [UInt8.ofNat (c.toNat / 262144 % 8 + 240), UInt8.ofNat (c.toNat / 4096 % 64 + 128),
          UInt8.ofNat (c.toNat / 64 % 64 + 128), UInt8.ofNat (c.toNat % 64 + 128)] := rfl
  rw [lengths]
  by_cases one : c.toNat ≤ 127
  · rw [if_pos one, singleton_append, decodeFrom_cons, feed, start_one (by omega), Char.ofNat_toNat]
    rfl
  · rw [if_neg one]
    by_cases two : c.toNat ≤ 2047
    · rw [if_pos two]
      exact (decodeFrom_two (by omega) two bytes).trans (by rw [Char.ofNat_toNat])
    · rw [if_neg two]
      by_cases three : c.toNat ≤ 65535
      · rw [if_pos three]
        exact (decodeFrom_three (by omega) three (by omega) bytes).trans (by rw [Char.ofNat_toNat])
      · rw [if_neg three]
        exact (decodeFrom_four (by omega) (by omega) bytes).trans (by rw [Char.ofNat_toNat])

theorem decode_encode (text : List Char) : decode (text.flatMap String.utf8EncodeChar) = text := by
  induction text with
  | nil => rfl
  | cons c _ ih =>
    rw [flatMap_cons, decode, decodeFrom_encodeChar]
    exact congrArg (c :: ·) ih

-- A character in two halves, and a first half that nothing completes.
example : decode [0x61, 0xC3] = ['a', replacement] ∧ decode [0x61, 0xC3, 0xA9] = ['a', 'é'] ∧
    decode [0xE2, 0x82, 0x62] = [replacement, 'b'] := by decide

end Nanoserve.Lib.Utf8
