import Mathlib.Data.List.Nodup
import Nanoserve.Lib.Runs
import Nanoserve.Router.Executor

/-! # Scaling processes

`Scale` compares what it is asked for with what it has started and not stopped.
-/

namespace Nanoserve.Verified

open Lib Router List

structure Supervised (host : Host) : Prop where
  numbered : host.started = (range host.executor.nextIdx).map fun index =>
    { index, port := host.executor.basePort + index, child := index }
  running : host.executor.running = host.started.filter fun replica => decide (replica.child ∉ host.stopped)
  past : ∀ child ∈ host.stopped, child < host.executor.nextIdx
  real : ∀ child ∈ host.crashed, child < host.executor.nextIdx

namespace Supervised

variable {host : Host}

theorem initially (basePort : Int) : Supervised { executor := { basePort } } := ⟨rfl, rfl, nofun, nofun⟩

section

variable (supervised : Supervised host)
include supervised

theorem length_started : host.started.length = host.executor.nextIdx := by
  rw [supervised.numbered, length_map, length_range]

theorem start : Supervised host.start := by
  have length := supervised.length_started
  have fresh : host.executor.nextIdx ∉ host.stopped := fun stopped => Nat.lt_irrefl _ (supervised.past _ stopped)
  constructor
  · simp only [Host.start, length]
    rw [range_succ, map_append, ← supervised.numbered]
    rfl
  · simp only [Host.start, length]
    rw [filter_append, ← supervised.running]
    simp [fresh]
  · intro child mem
    exact Nat.lt_succ_of_lt (supervised.past child mem)
  · intro child mem
    exact Nat.lt_succ_of_lt (supervised.real child mem)

theorem children : host.started.map ReplicaProc.child = range host.executor.nextIdx := by
  rw [supervised.numbered, map_map]
  exact map_id _

theorem running_sublist : host.executor.running.Sublist host.started := by
  rw [supervised.running]
  exact filter_sublist

theorem pairwise_running :
    host.executor.running.Pairwise fun older younger => older.child < younger.child := by
  have ordered : (host.started.map ReplicaProc.child).Pairwise (· < ·) := by
    rw [supervised.children]
    exact pairwise_lt_range
  exact (pairwise_map.mp ordered).sublist supervised.running_sublist

theorem stop {victim : ReplicaProc} (last : host.executor.running.getLast? = some victim) :
    Supervised ({ host with
      executor := { host.executor with running := host.executor.running.dropLast } }.terminate victim) := by
  have split : host.executor.running.dropLast ++ [victim] = host.executor.running := dropLast_append_getLast? victim last
  refine ⟨supervised.numbered, ?_, ?_, supervised.real⟩
  · have others : ∀ rep ∈ host.executor.running.dropLast, rep.child ≠ victim.child := by
      have ordered := supervised.pairwise_running
      rw [← split] at ordered
      intro rep mem
      exact Nat.ne_of_lt ((pairwise_append.mp ordered).2.2 rep mem victim (mem_singleton_self _))
    calc host.executor.running.dropLast
        = host.executor.running.dropLast.filter fun rep => decide (rep.child ≠ victim.child) :=
          (filter_eq_self.mpr fun rep mem => decide_eq_true (others rep mem)).symm
      _ = (host.executor.running.dropLast ++ [victim]).filter fun rep => decide (rep.child ≠ victim.child) := by
          simp
      _ = host.started.filter fun rep => decide (rep.child ∉ host.stopped ++ [victim.child]) := by
          rw [split, supervised.running, filter_filter]
          congr 1
          funext rep
          simp [and_comm]
  · intro child mem
    cases mem_append.mp mem with
    | inl before => exact supervised.past child before
    | inr now =>
      have started : victim ∈ host.started := supervised.running_sublist.mem (mem_of_getLast? last)
      have child_lt : victim.child ∈ range host.executor.nextIdx := by
        rw [← supervised.children]
        exact mem_map_of_mem started
      rw [mem_singleton.mp now]
      exact mem_range.mp child_lt

end

theorem startMissing (startable : Nat → Bool) (missing : Nat) (supervised : Supervised host) :
    Supervised (Host.startMissing startable missing host).2 ∧
      (Host.startMissing startable missing host).2.crashed = host.crashed ∧
      ((Host.startMissing startable missing host).1 = .ok () → ∃ more,
        (Host.startMissing startable missing host).2.executor.running = host.executor.running ++ more ∧
          more.length = missing ∧ ∀ rep ∈ more, host.started.length ≤ rep.child) := by
  induction missing generalizing host with
  | zero => exact ⟨supervised, rfl, fun _ => ⟨[], (append_nil _).symm, rfl, nofun⟩⟩
  | succ _ ih =>
    rw [Host.startMissing]
    by_cases able : startable host.executor.nextIdx = true
    · rw [if_pos able]
      obtain ⟨kept, sameCrashes, running⟩ := ih supervised.start
      refine ⟨kept, sameCrashes, ?_⟩
      intro started
      obtain ⟨more, runs, count, younger⟩ := running started
      refine ⟨⟨host.executor.nextIdx, host.executor.basePort + host.executor.nextIdx, host.started.length⟩ :: more, ?_,
        congrArg (· + 1) count, ?_⟩
      · rw [runs]
        exact append_assoc _ [_] more
      · intro rep mem
        cases mem_cons.mp mem with
        | inl first => exact first ▸ Nat.le_refl _
        | inr rest =>
          have longer : host.start.started.length = host.started.length + 1 := length_append
          have later := younger rep rest
          omega
    · rw [if_neg able]
      exact ⟨supervised, rfl, by intro started; cases started⟩

theorem stopSurplus (surplus : Nat) (supervised : Supervised host) :
    Supervised (Host.stopSurplus surplus host) ∧ (Host.stopSurplus surplus host).crashed = host.crashed ∧
      (Host.stopSurplus surplus host).started = host.started ∧
      (Host.stopSurplus surplus host).executor.running =
        host.executor.running.take (host.executor.running.length - surplus) := by
  induction surplus generalizing host with
  | zero => exact ⟨supervised, rfl, rfl, (take_length).symm⟩
  | succ _ ih =>
    rw [Host.stopSurplus]
    cases last : host.executor.running.getLast? with
    | none =>
      have nobody := getLast?_eq_none_iff.mp last
      exact ⟨supervised, rfl, rfl, by simp [nobody]⟩
    | some =>
      obtain ⟨kept, sameCrashes, sameStarted, running⟩ := ih (supervised.stop last)
      refine ⟨kept, sameCrashes, sameStarted, running.trans ?_⟩
      simp only [Host.terminate, dropLast_eq_take, take_take, length_take]
      congr 1
      omega

theorem scale (desired : Int) (startable : Nat → Bool) (supervised : Supervised host) :
    Supervised (host.scale desired startable).2 := by
  obtain ⟨kept, -, -⟩ := supervised.startMissing startable (desired - host.executor.running.length).toNat
  simp only [Host.scale]
  split
  case h_1 _ between => grind
  case h_2 between started =>
    rw [started] at kept
    exact (kept.stopSurplus _).1

theorem crash {child : Nat} (there : child ∈ host.alive.map ReplicaProc.child) (supervised : Supervised host) :
    Supervised { host with crashed := host.crashed ++ [child] } := by
  refine ⟨supervised.numbered, supervised.running, supervised.past, ?_⟩
  intro other mem
  cases mem_append.mp mem with
  | inl before => exact supervised.real other before
  | inr now =>
    rw [mem_singleton.mp now, ← mem_range, ← supervised.children]
    exact (filter_sublist.map _).mem there

theorem step {next : Host} {event : HostEvent} (supervised : Supervised host) (went : host.step event = .ok next) :
    Supervised next := by
  cases event with
  | scale desired startable =>
    cases went
    exact supervised.scale desired startable
  | crash =>
    rw [Host.step] at went
    split at went
    · next there =>
      cases went
      exact supervised.crash there
    · cases went

theorem alive_eq (supervised : Supervised host) :
    host.alive = host.executor.running.filter fun rep => decide (rep.child ∉ host.crashed) := by
  rw [supervised.running, filter_filter, Host.alive]
  congr 1
  funext rep
  exact Bool.and_comm _ _

theorem scaled (supervised : Supervised host) {desired : Int} (nonneg : 0 ≤ desired) {startable : Nat → Bool} {next : Host}
    (returned : host.scale desired startable = (.ok (), next)) :
    next.crashed = host.crashed ∧ ∃ more, next.executor.running = host.executor.running.take desired.toNat ++ more ∧
      next.executor.running.length = desired.toNat ∧ (∀ rep ∈ more, host.started.length ≤ rep.child) ∧
      (more = [] ∨ host.executor.running.take desired.toNat = host.executor.running) := by
  obtain ⟨keptUp, crashesUp, runningUp⟩ := supervised.startMissing startable (desired - host.executor.running.length).toNat
  simp only [Host.scale] at returned
  split at returned
  case h_1 => cases returned
  case h_2 between started =>
    cases returned
    rw [started] at keptUp crashesUp runningUp
    obtain ⟨more, runs, count, younger⟩ := runningUp rfl
    obtain ⟨-, crashesDown, -, runningDown⟩ :=
      keptUp.stopSurplus (between.executor.running.length - desired.toNat)
    refine ⟨crashesDown.trans crashesUp, ?_⟩
    have runs : between.executor.running = host.executor.running ++ more := runs
    rw [runningDown, runs, length_append, count]
    by_cases up : host.executor.running.length ≤ desired.toNat
    · -- Nothing is left over.
      have all : host.executor.running.length + (desired - host.executor.running.length).toNat -
          (host.executor.running.length + (desired - host.executor.running.length).toNat - desired.toNat) =
            (host.executor.running ++ more).length := by
        rw [length_append, count]
        omega
      rw [all, take_length, take_of_length_le up]
      refine ⟨more, rfl, ?_, younger, .inr rfl⟩
      rw [length_append, count]
      omega
    · -- Nothing was missing.
      have nothing : more = [] := eq_nil_of_length_eq_zero (by omega)
      subst nothing
      refine ⟨[], ?_, ?_, nofun, .inl rfl⟩
      · rw [append_nil, append_nil]
        congr 1
        omega
      · rw [append_nil, length_take]
        omega

end Supervised

/-- In every run, what `Scale` has up when it returns without an error is what it was asked for
exactly if none of the replicas it keeps has exited on its own. -/
theorem scaled_alive_iff (basePort : Int) (events : List HostEvent) {host : Host}
    (ran : run Host.step { executor := { basePort } } events = .ok host) {desired : Int} (nonneg : 0 ≤ desired)
    (startable : Nat → Bool) {next : Host} (returned : host.scale desired startable = (.ok (), next)) :
    ((next.alive.length : Int) = desired ↔
        ∀ replica ∈ host.executor.running.take desired.toNat, replica.child ∉ host.crashed) ∧
      (next.running : Int) = desired ∧
      (∀ replica ∈ next.executor.running, ∀ victim ∈ host.executor.running, victim ∉ next.executor.running →
        replica.child < victim.child) ∧
      (next.started.map ReplicaProc.index).Nodup ∧ (next.started.map ReplicaProc.port).Nodup := by
  have supervised : Supervised host :=
    @run_preserves _ _ _ Host.step Supervised (fun _ _ => True) (fun _ _ _ held _ stepped => held.step stepped) events _ host
      (.initially basePort) (along_trivial (fun _ _ => trivial) _ _) ran
  have supervisedNext : Supervised next := by
    have kept := supervised.scale desired startable
    rw [returned] at kept
    exact kept
  obtain ⟨sameCrashes, more, runs, count, younger, either⟩ := supervised.scaled nonneg returned
  refine ⟨?_, ?_, ?_, ?_, ?_⟩
  · have counted : (next.alive.length : Int) = desired ↔ next.alive.length = next.executor.running.length := by
      omega
    rw [counted, supervisedNext.alive_eq, List.length_filter_eq_length_iff, sameCrashes, runs]
    simp only [List.forall_mem_append, decide_eq_true_eq]
    refine and_iff_left ?_
    intro replica member crashed
    have old := supervised.real _ crashed
    have new := younger replica member
    rw [supervised.length_started] at new
    omega
  · show (next.executor.running.length : Int) = desired
    omega
  · intro replica kept victim present gone
    cases either with
    | inr all => grind
    | inl nothing =>
      rw [runs, nothing, List.append_nil] at kept gone
      have ordered := supervised.pairwise_running
      rw [← List.take_append_drop desired.toNat host.executor.running] at ordered present
      exact (List.pairwise_append.mp ordered).2.2 replica kept victim ((List.mem_append.mp present).resolve_left gone)
  · rw [supervisedNext.numbered, List.map_map]
    exact (List.map_id _).symm ▸ List.nodup_range
  · rw [supervisedNext.numbered, List.map_map]
    refine List.Nodup.map ?_ List.nodup_range
    intro first second same
    have same : next.executor.basePort + (first : Int) = next.executor.basePort + (second : Int) := same
    omega

/-- Three replicas, of which the last one exits on its own, and then one less. -/
theorem scaled_alive_iff_three :
    Yields (run Host.step { executor := { basePort := 50051 } } [.scale 3 (fun _ => true), .crash 2]) fun host =>
      (host.scale 2 fun _ => true).1 = .ok () ∧ (host.scale 2 fun _ => true).2.alive.length = 2 := by
  have reached : Yields (run Host.step { executor := { basePort := 50051 } } [.scale 3 (fun _ => true), .crash 2])
      fun host => (host.scale 2 fun _ => true).1 = .ok () ∧
        ∀ replica ∈ host.executor.running.take 2, replica.child ∉ host.crashed := by decide +kernel
  obtain ⟨host, ran, succeeds, sound⟩ := reached
  have counted := (scaled_alive_iff 50051 _ ran (by decide) (fun _ => true) (Prod.ext succeeds rfl)).1.mpr sound
  exact ⟨host, ran, succeeds, by exact_mod_cast counted⟩

/-- Three replicas, of which the first one exits on its own. -/
theorem crashed_replica_counts :
    Yields (run Host.step { executor := { basePort := 50051 } } [.scale 3 (fun _ => true), .crash 0]) fun host =>
      (host.scale 3 fun _ => true).1 = .ok () ∧ (host.scale 3 fun _ => true).2.alive.length = 2 ∧
        (host.scale 1 fun _ => true).1 = .ok () ∧ (host.scale 1 fun _ => true).2.alive.length = 0 := by
  decide +kernel

end Nanoserve.Verified
