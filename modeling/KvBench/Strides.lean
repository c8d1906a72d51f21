/-
  kvbench formalization — the indices the workers of a phase pass to
  `genKey`.

  * `strides_disjoint`: when `c` is a power of two, or while each has run at
    most `2^64 / c` iterations, every index worker `j` has passed is `j`
    modulo `c`, so two distinct workers of a phase never pass the same index;
  * `strides_collide`: a run with `c = 3` and `-d` of `2^63 - 1` nanoseconds
    where worker 0's index wraps around `2^64` onto worker 2's start index.
-/
import KvBench.Pool

namespace KvBench

variable {σ : Type} {f : Flags} {B : Store σ}

/-! ## Strides -/

section
variable {s : Sys σ}

theorem length_resetsOf (k : Kind) (j : Nat) (log : List Entry) :
    (resetsOf k j log).length = callsBy k j log := List.length_map _ _

/-- Every index worker `j` of any phase has passed is `j` modulo `c`, when `c`
    is a power of two or while it has run at most `2^64 / c` iterations. -/
theorem indicesOf_mod (hr : Reachable f B s) (k : Kind) {j : Nat} (hj : j < f.c.toNat)
    (h : (∃ a, f.c.toNat = 2 ^ a) ∨ callsBy k j s.log * f.c.toNat ≤ 2 ^ 64) :
    ∀ x ∈ indicesOf k j s.log, x.toNat % f.c.toNat = j := by
  rw [(reachable_inv hr).stride k j]
  exact indices_mod (by have := f.c_lt; omega) hj _ (by rwa [length_resetsOf])

/-- **Disjoint strides.** In every reachable state, when `c` is a power of
    two, or while each has run at most `2^64 / c` iterations, two distinct
    workers `j₁ ≠ j₂ < c` of a phase have passed indices to `genKey` that are
    `j₁` and `j₂` modulo `c`, hence disjoint. -/
theorem strides_disjoint (hr : Reachable f B s) (k : Kind) {j₁ j₂ : Nat} (h₁ : j₁ < f.c.toNat)
    (h₂ : j₂ < f.c.toNat) (hne : j₁ ≠ j₂)
    (h : (∃ a, f.c.toNat = 2 ^ a) ∨
      (callsBy k j₁ s.log * f.c.toNat ≤ 2 ^ 64 ∧ callsBy k j₂ s.log * f.c.toNat ≤ 2 ^ 64)) :
    (∀ x ∈ indicesOf k j₁ s.log, x.toNat % f.c.toNat = j₁) ∧
      (∀ x ∈ indicesOf k j₂ s.log, x.toNat % f.c.toNat = j₂) ∧
      ∀ x ∈ indicesOf k j₁ s.log, x ∉ indicesOf k j₂ s.log := by
  have e₁ := indicesOf_mod hr k h₁ (h.imp id (·.1))
  have e₂ := indicesOf_mod hr k h₂ (h.imp id (·.2))
  exact ⟨e₁, e₂, fun x hx₁ hx₂ => hne ((e₁ x hx₁).symm.trans (e₂ x hx₂))⟩

end

/-- `-d 9223372036854775807ns -c 3`. -/
def strideFlags : Flags := ⟨2 ^ 63 - 1, 3, 0, 256, false, "map", "", by decide⟩

theorem Kind.resets_set (r : Reply) : Kind.set.resets r = false := by
  cases r <;> rfl

/-- `testSet` never sends a worker back. -/
theorem resetsOf_set (j : Nat) (log : List Entry) :
    resetsOf .set j log = List.replicate (callsBy .set j log) false := by
  simp [resetsOf, callsBy, Kind.resets_set, List.map_const']

/-- `-c 3`: `testKeys` with one iteration, then `testSet` with its three
    workers started. -/
def threeWorkerStart : List Event :=
  [.bulk PageDraws.zeros, .driver, .mem 0 0, .disk none, .probe (Draw.zeros 0)] ++
    List.replicate 6 .driver ++
    [.worker 0 (Draw.zeros 0), .worker 0 (Draw.zeros 0), .elapse (2 ^ 63), .fire, .worker 0 (Draw.zeros 0),
     .worker 1 (Draw.zeros 0), .worker 2 (Draw.zeros 0), .driver, .driver] ++
    List.replicate 6 .driver

/-- Then workers 0 and 1 of `testSet` run one iteration each. -/
def twoStrides : List Event := threeWorkerStart ++ iterations 0 (Draw.zeros 0) 1 ++ iterations 1 (Draw.zeros 0) 1

/-- The state after `twoStrides` from a fresh map store. -/
def twoStridesAt : Sys KV :=
  ((Sys.init strideFlags ∅ none).run strideFlags refStore twoStrides).getD (Sys.init strideFlags ∅ none)

theorem strides_disjoint_three :
    Reachable strideFlags refStore twoStridesAt ∧ indicesOf .set 0 twoStridesAt.log = [0] ∧
      indicesOf .set 1 twoStridesAt.log = [1] ∧ 0 < strideFlags.c.toNat ∧ 1 < strideFlags.c.toNat ∧
      (0 : Nat) ≠ 1 ∧
      ((∃ a, strideFlags.c.toNat = 2 ^ a) ∨
        (callsBy .set 0 twoStridesAt.log * strideFlags.c.toNat ≤ 2 ^ 64 ∧
          callsBy .set 1 twoStridesAt.log * strideFlags.c.toNat ≤ 2 ^ 64)) ∧
      (∀ x ∈ indicesOf .set 0 twoStridesAt.log, x.toNat % strideFlags.c.toNat = 0) ∧
      (∀ x ∈ indicesOf .set 1 twoStridesAt.log, x.toNat % strideFlags.c.toNat = 1) ∧
      ∀ x ∈ indicesOf .set 0 twoStridesAt.log, x ∉ indicesOf .set 1 twoStridesAt.log :=
  have hr : Reachable strideFlags refStore twoStridesAt := ⟨∅, none, twoStrides, rfl⟩
  have h : (∃ a, strideFlags.c.toNat = 2 ^ a) ∨
      (callsBy .set 0 twoStridesAt.log * strideFlags.c.toNat ≤ 2 ^ 64 ∧
        callsBy .set 1 twoStridesAt.log * strideFlags.c.toNat ≤ 2 ^ 64) :=
    .inr ⟨by decide, by decide⟩
  ⟨hr, by decide, by decide, by decide, by decide, by decide, h,
    strides_disjoint hr .set (by decide) (by decide) (by decide) h⟩

/-- Then worker 2 runs one iteration of `testSet` and worker 0 runs
    `⌈2^64 / 3⌉ + 1`; its index wraps around to worker 2's start. -/
def collisionRun : List Event :=
  threeWorkerStart ++ iterations 2 (Draw.zeros 0) 1 ++ iterations 0 (Draw.zeros 0) 6148914691236517207

theorem strides_collide :
    ∃ s, (Sys.init strideFlags ∅ none).run strideFlags refStore collisionRun = some s ∧
      UInt64.ofNat 2 ∈ indicesOf .set 0 s.log ∧ UInt64.ofNat 2 ∈ indicesOf .set 2 s.log := by
  obtain ⟨s₀, h₀, hh, hd, hws, hph, hc₀, hc₂, hnow, hdl⟩ :
      ∃ s₀, (Sys.init strideFlags ∅ none).run strideFlags refStore threeWorkerStart = some s₀ ∧
        s₀.halted = false ∧ s₀.ctxDone = false ∧ s₀.workers = [Worker.new 0, Worker.new 1, Worker.new 2] ∧
        s₀.phase = .set ∧ callsBy .set 0 s₀.log = 0 ∧ callsBy .set 2 s₀.log = 0 ∧ s₀.now = 2 ^ 63 + 1 ∧
        s₀.deadline = 2 ^ 64 :=
    ⟨_, rfl, by decide⟩
  obtain ⟨st₁, ws₁, L₁, h₁, -, -, hw₁, hc₁, ho₁⟩ := @Looping.iterate KV strideFlags refStore
    2 (Draw.zeros 0) 1 s₀ ⟨hh, hd, Worker.new 2, by simp [hws], rfl⟩ (by rw [hnow, hdl]; decide)
  obtain ⟨st₂, ws₂, L₂, h₂, -, -, -, hc₂', ho₂⟩ := @Looping.iterate KV strideFlags refStore
    0 (Draw.zeros 0) 6148914691236517207
    { s₀ with now := s₀.now + 1, store := st₁, workers := ws₁, log := s₀.log ++ L₁ }
    ⟨hh, hd, Worker.new 0, by simp [hw₁ 0 (by decide), hws], rfl⟩ (by dsimp only; rw [hnow, hdl]; decide)
  obtain ⟨s, hrun, hlog⟩ : ∃ s, (Sys.init strideFlags ∅ none).run strideFlags refStore collisionRun = some s ∧
      s.log = s₀.log ++ L₁ ++ L₂ :=
    ⟨_, by rw [collisionRun, run_append, run_append, h₀, Option.some_bind, h₁, Option.some_bind, h₂], rfl⟩
  have hi := reachable_inv ⟨∅, none, collisionRun, hrun⟩
  simp only [hph] at hc₁ ho₁ hc₂' ho₂
  refine ⟨s, hrun, ?_, ?_⟩
  · rw [hi.stride, hlog, resetsOf_set, hc₂', ho₁ .set 0 (.inr (by decide)), hc₀, indices_replicate]
    exact List.mem_map.2 ⟨6148914691236517206, List.mem_range.2 (by omega), by decide⟩
  · rw [hi.stride, hlog, resetsOf_set, ho₂ .set 2 (.inr (by decide)), hc₁, hc₂, indices_replicate]
    exact List.mem_map.2 ⟨0, List.mem_range.2 (by omega), by decide⟩

end KvBench
