/-
  kvbench formalization — the goroutines stop within one call.

  A worker looks at `ctx.Done()` at the top of each iteration and the writer
  of `testGetSet` at `ch`; neither gives up a call it has begun. So once a
  phase's context is done each of its workers makes at most the call it is
  in, and once `close(ch)` has run the writer makes at most the `Set` it is
  in, which may land while `testDelete` runs.

  * `Step.bound_le`: no step takes the driver back;
  * `Writer.pending`, `Closed`, `writer_stops_after_close`: after
    `close(ch)`, whatever the schedule, the writer's `Set`s are the one it is
    in, if any, and no more;
  * `inCall`, `Expired`, `workers_stop_after_done`: after the context of the
    running phase is done, whatever the schedule, each of its workers makes
    at most the call it is in;
  * `waitgroup_balanced`: `wg` counts the workers that have not called
    `wg.Done()`, never goes below zero, and `wg.Wait()` returns only once
    every worker has left its loop.
-/
import KvBench.Placement

namespace KvBench

variable {σ : Type} {f : Flags} {B : Store σ}

section
variable {s s' : Sys σ}

/-- No step takes the driver back to an earlier place. -/
theorem Step.bound_le (hs : Step f B s s') : s.pc.bound ≤ s'.pc.bound := by
  cases hs with
  | probe _ _ hpc => rw [hpc]; dsimp only; split <;> simp [Pc.bound, Kind.rank]
  | wait _ hpc => rw [hpc]; dsimp only; split <;> simp_all [Pc.bound, Kind.rank]
  | measure _ hpc =>
    rw [hpc]; dsimp only
    split
    · rename_i h; simp [Pc.bound, Kind.rank_next h]
    · simpa [Pc.bound] using Kind.rank_le _
  | exitPanic | bulkPanic | startPanic | measurePanic => exact Pc.bound_le_panicked _
  | start _ hpc | clock _ hpc | spawn _ hpc | spawnEnd _ hpc | closeCh _ hpc | bulk _ hpc | bulkDone _ hpc
    | mem _ _ _ hpc | disk _ _ hpc | save _ hpc => simp [hpc, Pc.bound]
  | _ => exact le_refl _

end

/-! ## The writer after `close(ch)` -/

/-- The `Set`s the writer can still make once `ch` is closed: the one it has
    begun, between its `select` and the call. At its `select` it sees `ch`
    closed and returns. -/
def Writer.pending (w : Option Writer) : Nat := if w.map Writer.pc = some .call then 1 else 0

/-- `close(ch)` comes after `testGetSet` has begun, and no later phase
    reopens `ch`. -/
def Closed (s : Sys σ) : Prop := s.chClosed = true → Kind.getSet.rank < s.pc.bound

section
variable {s s' : Sys σ}

theorem Closed.step (hs : Step f B s s') (h : Closed s) : Closed s' := by
  have hb := hs.bound_le
  intro hc
  cases hs with
  | start =>
    revert hb hc; dsimp only
    split
    · simp
    · exact fun hb hc => lt_of_lt_of_le (h hc) hb
  | closeCh => simp [Pc.bound]
  | _ => exact lt_of_lt_of_le (h hc) hb

/-- After `close(ch)`, a step keeps `ch` closed, and the writer's `Set`s made
    plus those it can still make. -/
theorem writer_step_closed (hs : Step f B s s') (h : Closed s) (hc : s.chClosed = true) :
    s'.chClosed = true ∧ ∃ L, writerIndices s'.log = writerIndices s.log ++ L ∧
      L.length + Writer.pending s'.writer = Writer.pending s.writer := by
  cases hs with
  | wselect _ hw hpc => exact ⟨hc, [], by simp, by simp [hw, hpc, hc, Writer.pending]⟩
  | wcall _ _ hw hpc => exact ⟨hc, _, writerIndices_append _ _, by simp [hw, hpc, Writer.pending]⟩
  | wcount _ hw hpc => exact ⟨hc, [], by simp, by simp [hw, hpc, Writer.pending]⟩
  | start _ hpc =>
    dsimp only
    split
    · subst_vars; simpa [hpc, Pc.bound] using h hc
    · exact ⟨hc, [], by simp, Nat.zero_add _⟩
  | exit | call | probe | save | bulk => exact ⟨hc, [], by simp, Nat.zero_add _⟩
  | closeCh => exact ⟨rfl, [], (List.append_nil _).symm, Nat.zero_add _⟩
  | _ => exact ⟨hc, [], (List.append_nil _).symm, Nat.zero_add _⟩

end

theorem reachable_closed {s : Sys σ} (hr : Reachable f B s) : Closed s :=
  Reachable.induction (fun _ _ h => by simp [Sys.init] at h) (fun _ _ hs h => h.step hs) hr

/-- **The writer stops within one `Set` of `close(ch)`.** From every reachable
    state where `close(ch)` has run, whatever the schedule: the `Set`s the
    writer of `testGetSet` makes are the one it had begun, if any, and no
    more. -/
theorem writer_stops_after_close {s s' : Sys σ} {es : List Event} (hr : Reachable f B s)
    (hc : s.chClosed = true) (h : s.run f B es = some s') :
    ∃ L, writerIndices s'.log = writerIndices s.log ++ L ∧
      L.length + Writer.pending s'.writer = Writer.pending s.writer := by
  refine (run_preserves (P := fun t => Closed t ∧ t.chClosed = true ∧ ∃ L,
      writerIndices t.log = writerIndices s.log ++ L ∧
        L.length + Writer.pending t.writer = Writer.pending s.writer) ?_ es s s' h
    ⟨reachable_closed hr, hc, [], by simp, by simp⟩).2.2
  rintro t t' hs ⟨hcl, htc, L, hL, hn⟩
  obtain ⟨htc', L', hL', hn'⟩ := writer_step_closed hs hcl htc
  exact ⟨hcl.step hs, htc', L ++ L', by rw [hL', hL, List.append_assoc], by simp; omega⟩

/-- In `oneWorkerRun`, `close(ch)` finds the writer between its `select` and
    its `Set`; the rest of the run, through `testDelete`, makes that `Set` and
    no other. -/
theorem writer_last_set_one_worker :
    Reachable oneWorkerFlags refStore (oneWorkerAt oneWorkerFlags none 50) ∧
      (oneWorkerAt oneWorkerFlags none 50).chClosed = true ∧
      ∃ s', (oneWorkerAt oneWorkerFlags none 50).run oneWorkerFlags refStore ((oneWorkerRun none).drop 50) =
          some s' ∧ ∃ L, writerIndices s'.log = writerIndices (oneWorkerAt oneWorkerFlags none 50).log ++ L ∧
        L.length + Writer.pending s'.writer = Writer.pending (oneWorkerAt oneWorkerFlags none 50).writer := by
  have hr : Reachable oneWorkerFlags refStore (oneWorkerAt oneWorkerFlags none 50) :=
    ⟨∅, none, (oneWorkerRun none).take 50, rfl⟩
  have hc : (oneWorkerAt oneWorkerFlags none 50).chClosed = true := by decide
  obtain ⟨s', h⟩ := Option.isSome_iff_exists.1 (show ((oneWorkerAt oneWorkerFlags none 50).run oneWorkerFlags
    refStore ((oneWorkerRun none).drop 50)).isSome by decide)
  exact ⟨hr, hc, s', h, writer_stops_after_close hr hc h⟩

/-! ## The workers after `ctx.Done()` -/

/-- The call worker `j` of phase `k` has begun and not finished: one while it
    is between its `select` and the store call. -/
def inCall (k : Kind) (j : Nat) (s : Sys σ) : Nat :=
  if s.phase = k ∧ s.workers[j]?.map Worker.pc = some .call then 1 else 0

/-- Phase `k` has begun, and its context is done while it runs. -/
def Expired (k : Kind) (s : Sys σ) : Prop :=
  (s.pc.running = some k → s.ctxDone = true) ∧ k.rank < s.pc.bound

theorem Pc.rank_lt_bound {pc : Pc} {k : Kind} (h : pc.running = some k) : k.rank < pc.bound := by
  cases pc <;> simp_all [Pc.running, Pc.bound]

section
variable {s s' : Sys σ} {k : Kind}

theorem Expired.step (hs : Step f B s s') (h : Expired k s) : Expired k s' := by
  refine ⟨fun hk => ?_, lt_of_lt_of_le h.2 hs.bound_le⟩
  cases hs with
  | fire | measure => rfl
  | start _ hpc =>
    dsimp only [Pc.running] at hk
    cases hk
    simpa [hpc, Pc.bound] using h.2
  | clock _ hpc | spawn _ hpc | spawnEnd _ hpc | closeCh _ hpc =>
    exact h.1 (by simp_all [Pc.running])
  | wait _ hpc => exact h.1 (by revert hk; dsimp only; split <;> simp_all [Pc.running])
  | probe | bulk | bulkPanic | startPanic | measurePanic | exitPanic | save | bulkDone | mem | disk =>
    revert hk; dsimp only; (try split) <;> simp [Pc.running]
  | _ => exact h.1 hk

/-- A step that adds no worker entry and keeps the workers and the phase. -/
theorem inCall_frame {L : List Entry} (hL : ∀ e ∈ L, e.workerPhase = none) (hlog : s'.log = s.log ++ L)
    (hws : s'.workers = s.workers) (hph : s'.phase = s.phase) (j : Nat) :
    callsBy k j s'.log + inCall k j s' = callsBy k j s.log + inCall k j s := by
  simp [callsBy, hlog, callsOf_append_driver hL, inCall, hws, hph]

/-- While phase `k`'s context is done, a step keeps worker `j`'s calls made
    plus the one it may still make, or lowers them. -/
theorem worker_step_expired (hs : Step f B s s') (hi : Inv f s) (h : Expired k s) (j : Nat) :
    callsBy k j s'.log + inCall k j s' ≤ callsBy k j s.log + inCall k j s := by
  have nil : ∀ e ∈ ([] : List Entry), e.workerPhase = none := List.forall_mem_nil _
  have hp := hs.not_panicked
  cases hs with
  | enter _ hw hpc hd =>
    have hph : s.phase ≠ k := fun hk =>
      absurd (h.1 (hk ▸ (hi.active hp (List.getElem?_mem hw) (by simp [hpc])).1)) (by simp [hd])
    simp [inCall, hph]
  | @call j' w d _ hw hpc =>
    have hlt : j' < s.workers.length := (List.getElem?_eq_some_iff.1 hw).1
    by_cases hj : j' = j
    · subst hj; by_cases hk : s.phase = k <;> simp [callsBy, inCall, hk, hw, hpc, hlt, Worker.advance]
    · simp [callsBy, inCall, hj, List.getElem?_set_ne hj]
  | @exit j' w _ hw hpc _ =>
    by_cases hj : j' = j
    · subst hj; simp [callsBy, inCall, List.getElem?_set]
    · simp [callsBy, inCall, List.getElem?_set_ne hj]
  | spawn _ hpc =>
    rcases Nat.lt_or_ge j s.workers.length with hj | hj
    · simp [callsBy, inCall, List.getElem?_append_left hj]
    · simp [callsBy, inCall, List.getElem?_append_right hj, List.getElem?_eq_none hj]
      exact fun _ x hx => by rw [List.mem_singleton.1 (List.getElem?_mem hx)]; simp [Worker.new]
  | start =>
    dsimp only
    split <;> simp [callsBy, inCall, callsOf_append_driver (L := [.begin _]) (by simp [Entry.workerPhase])]
  | wcall | probe | save =>
    refine le_of_eq (inCall_frame ?_ (by rfl) (by rfl) (by rfl) j)
    simp [Entry.workerPhase]
  | bulk =>
    refine le_of_eq (inCall_frame ?_ (by rfl) (by rfl) (by rfl) j)
    simp only [List.mem_map]
    rintro e ⟨c, -, rfl⟩
    rfl
  | _ => exact le_of_eq (inCall_frame nil (List.append_nil _).symm (by rfl) (by rfl) j)

end

/-- **The workers stop within one call of `ctx.Done()`.** From every
    reachable state where phase `k` runs and its context is done, whatever
    the schedule: each worker `j` of `k` makes at most the call it had begun,
    if any, and no more. -/
theorem workers_stop_after_done {s s' : Sys σ} {es : List Event} {k : Kind} (hr : Reachable f B s)
    (hk : s.pc.running = some k) (hd : s.ctxDone = true) (h : s.run f B es = some s') (j : Nat) :
    callsBy k j s'.log ≤ callsBy k j s.log + inCall k j s := by
  have := (run_preserves (P := fun t => Inv f t ∧ Expired k t ∧
      callsBy k j t.log + inCall k j t ≤ callsBy k j s.log + inCall k j s)
    (fun _ _ hs ⟨hi, he, hn⟩ => ⟨hi.step hs, he.step hs, (worker_step_expired hs hi he j).trans hn⟩)
    es s s' h ⟨reachable_inv hr, ⟨fun _ => hd, Pc.rank_lt_bound hk⟩, le_refl _⟩).2.2
  omega

/-! ## The WaitGroup -/

/-- **The WaitGroup balances.** When `wg.Add(*c)` adds `*c` itself to the
    counter (`*c` below `2^32`), in every reachable state the counter of `wg`
    is `len(counts)`, the `c` of `wg.Add(*c)`, less the workers that have
    called `wg.Done()`; it is never negative, and stays positive while a
    worker has not called `wg.Done()`, so no `wg.Done()` takes it below zero;
    and once every worker has been started, the counter is `0`, which
    `wg.Wait()` waits for, only when every worker has left its loop. -/
theorem waitgroup_balanced {s : Sys σ} (hr : Reachable f B s) (hc : f.c < 2 ^ 32) :
    s.wg = s.counts.length - doneCount s.workers ∧ 0 ≤ s.wg ∧
      (∀ w ∈ s.workers, w.pc ≠ .done → 0 < s.wg) ∧
      (s.pc.started → (s.wg = 0 ↔ ∀ w ∈ s.workers, w.pc = .done)) := by
  have hi := reachable_inv hr
  have hle : doneCount s.workers ≤ s.workers.length := List.countP_le_length _
  have hall : doneCount s.workers = s.workers.length ↔ ∀ w ∈ s.workers, w.pc = .done := by
    simp [doneCount, List.countP_eq_length]
  have hlen := hi.len
  have hwg : s.wg = s.counts.length - doneCount s.workers := by
    have := hi.wg
    have := hi.size
    omega
  refine ⟨hwg, by omega, fun w hw hne => ?_, fun hst => ?_⟩
  · have : doneCount s.workers ≠ s.workers.length := fun h => hne (hall.1 h w hw)
    omega
  · have := hi.started hst
    rw [hwg, ← hall]; omega

/-- The WaitGroup of `oneWorkerRun`'s `testKeys` while its worker runs. -/
theorem waitgroup_one_worker :
    Reachable oneWorkerFlags refStore (oneWorkerAt oneWorkerFlags none 10) ∧
      oneWorkerFlags.c < 2 ^ 32 ∧ (oneWorkerAt oneWorkerFlags none 10).wg = 1 ∧
      (oneWorkerAt oneWorkerFlags none 10).wg =
        (oneWorkerAt oneWorkerFlags none 10).counts.length - doneCount (oneWorkerAt oneWorkerFlags none 10).workers :=
  have hr : Reachable oneWorkerFlags refStore (oneWorkerAt oneWorkerFlags none 10) :=
    ⟨∅, none, (oneWorkerRun none).take 10, rfl⟩
  have hc : oneWorkerFlags.c < 2 ^ 32 := by decide
  ⟨hr, hc, by decide, (waitgroup_balanced hr hc).1⟩

/-- In `oneWorkerRun`, once `testKeys`' timer has fired its worker, at its
    `select`, makes no more calls. -/
theorem keys_worker_stops_one_worker :
    Reachable oneWorkerFlags refStore (oneWorkerAt oneWorkerFlags none 13) ∧
      (oneWorkerAt oneWorkerFlags none 13).pc.running = some .keys ∧
      (oneWorkerAt oneWorkerFlags none 13).ctxDone = true ∧
      ∃ s', (oneWorkerAt oneWorkerFlags none 13).run oneWorkerFlags refStore ((oneWorkerRun none).drop 13) =
          some s' ∧ callsBy .keys 0 s'.log ≤
        callsBy .keys 0 (oneWorkerAt oneWorkerFlags none 13).log + inCall .keys 0 (oneWorkerAt oneWorkerFlags none 13) := by
  have hr : Reachable oneWorkerFlags refStore (oneWorkerAt oneWorkerFlags none 13) :=
    ⟨∅, none, (oneWorkerRun none).take 13, rfl⟩
  have hk : (oneWorkerAt oneWorkerFlags none 13).pc.running = some .keys := by decide
  have hd : (oneWorkerAt oneWorkerFlags none 13).ctxDone = true := by decide
  obtain ⟨s', h⟩ := Option.isSome_iff_exists.1 (show ((oneWorkerAt oneWorkerFlags none 13).run oneWorkerFlags
    refStore ((oneWorkerRun none).drop 13)).isSome by decide)
  exact ⟨hr, hk, hd, s', h, workers_stop_after_done hr hk hd h 0⟩

end KvBench
