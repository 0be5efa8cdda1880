import Mathlib.Order.WellFounded

/-! # While loops

`loop` is `while work: body` for a body that may raise, cut off after `fuel` rounds.
-/

namespace Nanoserve.Lib

open List

variable {σ ε : Type}

def loop (work : σ → Bool) (body : σ → Except ε σ) : Nat → σ → Except ε (Option σ)
  | 0, state => .ok (if work state then none else some state)
  | fuel + 1, state =>
    if work state then
      match body state with
      | .error raised => .error raised
      | .ok next => loop work body fuel next
    else .ok (some state)

variable {work : σ → Bool} {body : σ → Except ε σ}

theorem loop_done {state : σ} (done : work state = false) (fuel : Nat) : loop work body fuel state = .ok (some state) := by
  cases fuel with
  | zero => simp [loop, done]
  | succ => simp [loop, done]

theorem loop_round {state next : σ} (busy : work state = true) (ran : body state = .ok next) (fuel : Nat) :
    loop work body (fuel + 1) state = loop work body fuel next := by
  simp [loop, busy, ran]

theorem loop_halts {β : Type} [Preorder β] [WellFoundedLT β] {Inv : σ → Prop} (measure : σ → β)
    (prog : ∀ state, Inv state → work state = true →
      ∃ next, body state = .ok next ∧ Inv next ∧ measure next < measure state)
    {state : σ} (initially : Inv state) :
    ∃ fuel last, loop work body fuel state = .ok (some last) ∧ Inv last ∧ work last = false := by
  induction bound : measure state using WellFoundedLT.induction generalizing state with
  | ind _ ih =>
    cases busy : work state with
    | false => exact ⟨0, state, loop_done busy 0, initially, busy⟩
    | true =>
      obtain ⟨next, ran, held, smaller⟩ := prog state initially busy
      obtain ⟨fuel, last, rest, holds, done⟩ := ih (measure next) (bound ▸ smaller) held rfl
      exact ⟨fuel + 1, last, by rw [loop_round busy ran, rest], holds, done⟩

theorem loop_forever {Inv : σ → Prop}
    (stays : ∀ state, Inv state → work state = true ∧ ∃ next, body state = .ok next ∧ Inv next)
    {state : σ} (initially : Inv state) (fuel : Nat) : loop work body fuel state = .ok none := by
  induction fuel generalizing state with
  | zero => simp [loop, (stays state initially).1]
  | succ _ ih =>
    obtain ⟨busy, next, ran, held⟩ := stays state initially
    rw [loop_round busy ran]
    exact ih held

/-! ## Rules in order of priority -/

section Priority

variable {ρ : Type} {rules : List ρ} {Enabled : ρ → σ → Prop} {fire : ρ → σ → σ} {measure : σ → Nat}
  [∀ rule state, Decidable (Enabled rule state)]
  (idle : ∀ rule state, ¬Enabled rule state → fire rule state = state)
  (fires : ∀ before rule after state, rules = before ++ rule :: after →
    (∀ earlier ∈ before, ¬Enabled earlier state) → Enabled rule state →
      work state = true ∧ body state = .ok (fire rule state) ∧ measure (fire rule state) < measure state ∧
        ∀ earlier ∈ before ++ [rule], ¬Enabled earlier (fire rule state))
  (ends : ∀ state, (∀ rule ∈ rules, ¬Enabled rule state) → work state = false)

include idle fires ends

-- By induction on the rules still to come: none of the rules before them is enabled.
theorem loop_priority_from (after before : List ρ) (split : rules = before ++ after) {state : σ}
    (spent : ∀ earlier ∈ before, ¬Enabled earlier state) {fuel : Nat} (enough : measure state ≤ fuel) :
    loop work body fuel state = .ok (some (after.foldl (fun state rule => fire rule state) state)) ∧
      ∀ rule ∈ rules, ¬Enabled rule (after.foldl (fun state rule => fire rule state) state) := by
  induction after generalizing before state fuel with
  | nil =>
    rw [append_nil] at split
    subst split
    exact ⟨loop_done (ends state spent) fuel, spent⟩
  | cons rule after ih =>
    have splitNext : rules = (before ++ [rule]) ++ after := by rw [split, append_assoc, singleton_append]
    rw [foldl_cons]
    by_cases enabled : Enabled rule state
    · obtain ⟨busy, ran, _, spentNext⟩ := fires before rule after state split spent enabled
      cases fuel with
      | zero => omega
      | succ =>
        rw [loop_round busy ran]
        exact ih _ splitNext spentNext (by omega)
    · rw [idle rule state enabled]
      refine ih _ splitNext ?_ enough
      intro earlier mem
      cases mem_append.mp mem with
      | inl before => exact spent earlier before
      | inr last => exact mem_singleton.mp last ▸ enabled

theorem loop_priority (state : σ) {fuel : Nat} (enough : measure state ≤ fuel) :
    loop work body fuel state = .ok (some (rules.foldl (fun state rule => fire rule state) state)) ∧
      ∀ rule ∈ rules, ¬Enabled rule (rules.foldl (fun state rule => fire rule state) state) :=
  loop_priority_from idle fires ends rules [] rfl (fun _ mem => absurd mem not_mem_nil) enough

end Priority

end Nanoserve.Lib
