/-
  kvbench formalization — what the driver sums when `wg.Wait()` returns.

  An iteration of a worker takes a nanosecond at least, and none begins once
  the deadline has passed: a phase's workers run no more iterations than
  `-d` has nanoseconds, fewer than `2^63`, so no `int` count wraps around.

  * `Paced`: each store call of the running phase's workers, and each
    iteration under way, took a nanosecond of its own after `start`, and
    before the deadline;
  * `counts_at_wait`: when `wg.Add(*c)` set the counter to `*c` (`*c < 2^32`)
    and the driver measures phase `k`, slot `j` of `counts` holds the
    iterations worker `j` ran; worker `j` wrote slot `j` and no other; no
    worker beyond `c` ran; and the `n` the driver sums is the number of the
    phase's store calls;
  * `wait_returns_early`: with `-c 4294967296` the counter is left at `0`,
    and `wg.Wait()` returns before the deadline while worker `0`, which has
    made a store call, is still in its loop: its slot and `n` read `0`.
-/
import KvBench.Deadline

namespace KvBench

variable {σ : Type} {f : Flags} {B : Store σ}

/-! ## Counting store calls -/

/-- The store calls of all workers of phase `k`. -/
def phaseCalls (k : Kind) (log : List Entry) : Nat := (log.filterMap (Entry.workerCall k)).length

@[simp] theorem phaseCalls_append (k : Kind) (l₁ l₂ : List Entry) :
    phaseCalls k (l₁ ++ l₂) = phaseCalls k l₁ + phaseCalls k l₂ := by
  simp [phaseCalls]

theorem phaseCalls_eq_zero {k : Kind} {log : List Entry} (h : ∀ j, callsBy k j log = 0) :
    phaseCalls k log = 0 := by
  rw [phaseCalls, List.length_eq_zero, List.eq_nil_iff_forall_not_mem]
  intro x hx
  have := h x.1
  simp only [callsBy, callsOf, List.length_eq_zero, List.filter_eq_nil_iff] at this
  simpa using this x hx

theorem sum_range_indicator {x : Nat} : ∀ {n : Nat}, x < n →
    ((List.range n).map fun j => if x = j then 1 else 0).sum = 1
  | 0, h => absurd h (Nat.not_lt_zero x)
  | n + 1, h => by
    rw [List.range_succ, List.map_append, List.sum_append]
    by_cases hx : x = n
    · subst hx
      have : ((List.range x).map fun j => if x = j then 1 else 0) = (List.range x).map fun _ => 0 :=
        List.map_congr_left fun j hj => if_neg (by simp at hj; omega)
      simp [this]
    · simp [hx, sum_range_indicator (show x < n by omega)]

/-- Counting a list of calls worker by worker: every call is some worker's
    below `n`, and no call is counted twice. -/
theorem length_eq_sum_filter {α : Type} {n : Nat} :
    ∀ L : List (Nat × α), (∀ x ∈ L, x.1 < n) →
      L.length = ((List.range n).map fun j => (L.filter (·.1 == j)).length).sum
  | [], _ => by simp
  | x :: L, h => by
    have e : ∀ j, ((x :: L).filter (·.1 == j)).length =
        (L.filter (·.1 == j)).length + if x.1 = j then 1 else 0 := by
      intro j; by_cases hj : x.1 = j <;> simp [List.filter_cons, hj]
    simp only [e, List.sum_map_add, ← length_eq_sum_filter L fun y hy => h y (.tail _ hy),
      sum_range_indicator (h x (.head _)), List.length_cons]

theorem foldl_goInt (l : List Int) (a : Int) :
    l.foldl (fun n x => goInt (n + x)) (goInt a) = goInt (a + l.sum) := by
  induction l generalizing a with
  | nil => simp
  | cons x l ih => simp only [List.foldl_cons, goInt_add, List.sum_cons, ← Int.add_assoc, ih]

theorem sumCounts_eq (counts : List Int) : sumCounts counts = goInt counts.sum := by
  simpa using foldl_goInt counts 0

theorem goInt_sum_map_goInt (l : List Nat) (g : Nat → Int) :
    goInt (l.map fun j => goInt (g j)).sum = goInt (l.map g).sum := by
  induction l with
  | nil => rfl
  | cons j l ih =>
    simp only [List.map_cons, List.sum_cons]
    calc goInt (goInt (g j) + (l.map fun j => goInt (g j)).sum)
        = goInt (goInt (l.map fun j => goInt (g j)).sum + g j) := by rw [goInt_add, goInt_add, Int.add_comm]
      _ = goInt (g j + (l.map g).sum) := by rw [ih, goInt_add, Int.add_comm]

/-! ## Iterations take time -/

/-- The workers between their `default` branch and their store call. -/
def callingCount (ws : List Worker) : Nat := ws.countP (·.pc == .call)

theorem callingCount_set {ws : List Worker} {j : Nat} {w : Worker} (w' : Worker) (hw : ws[j]? = some w) :
    callingCount (ws.set j w') + (if w.pc = .call then 1 else 0) =
      callingCount ws + (if w'.pc = .call then 1 else 0) := by
  obtain ⟨hj, rfl⟩ := List.getElem?_eq_some_iff.1 hw
  have hpos : ws[j].pc = .call → 0 < callingCount ws := fun h =>
    List.countP_pos_iff.2 ⟨_, List.getElem_mem hj, by simp [h]⟩
  simp only [callingCount, List.countP_set _ _ _ _ hj, beq_iff_eq] at hpos ⊢
  split <;> split <;> simp_all

/-- The running phase against its clock: each store call of its workers, and
    each iteration under way, took a nanosecond of its own after `start`, and
    before the deadline. -/
def Paced (s : Sys σ) : Prop :=
  s.pc.clocked → (phaseCalls s.phase s.log + callingCount s.workers + s.start : Int) ≤ s.now ∧
    (0 < phaseCalls s.phase s.log + callingCount s.workers →
      (phaseCalls s.phase s.log + callingCount s.workers + s.start : Int) ≤ s.deadline)

section
variable {s s' : Sys σ}

theorem Paced.of_unclocked (hc : s.pc.clocked = false) : Paced s := fun h => by simp [hc] at h

/-- A step that keeps the running phase's store calls, the iterations under
    way, `start` and the deadline, and does not turn the clock back. -/
theorem Paced.of_move (h : Paced s) (hclk : s'.pc.clocked → s.pc.clocked)
    (hcalls : phaseCalls s'.phase s'.log = phaseCalls s.phase s.log)
    (hcall : callingCount s'.workers = callingCount s.workers) (hnow : s.now ≤ s'.now)
    (hst : s'.start = s.start) (hdl : s'.deadline = s.deadline) : Paced s' := fun hc => by
  have := h (hclk hc)
  rw [hcalls, hcall, hst, hdl]
  omega

/-- Every `Step` keeps `Paced`. -/
theorem Paced.step (hs : Step f B s s') (hi : Inv f s) (h : Paced s) : Paced s' := by
  cases hs with
  | elapse δ => exact h.of_move id rfl rfl (by simp) rfl rfl
  | fire | wselect | wcount => exact h.of_move id rfl rfl le_rfl rfl rfl
  | wcall => exact h.of_move id (by simp [phaseCalls, Entry.workerCall]) rfl le_rfl rfl rfl
  | @exit _ w _ hw hpc =>
    have e := callingCount_set { w with pc := .done } hw
    simp only [hpc, reduceCtorEq, if_false] at e
    exact h.of_move id (by simp [phaseCalls, Entry.workerCall]) e le_rfl rfl rfl
  | @enter _ w _ hw hpc _ hlt =>
    intro hc
    have e := callingCount_set { w with pc := .call } hw
    simp only [hpc, reduceCtorEq, if_false, if_true] at e
    have := (h hc).1
    dsimp only
    constructor <;> omega
  | @call _ w d _ hw hpc =>
    intro hc
    have e := callingCount_set (w.advance f.stride (s.phase.resets (B.exec (s.phase.op d w.i) s.store).1)) hw
    rw [hpc, if_pos rfl, if_neg (by simp [Worker.advance])] at e
    have := h hc
    simp only [phaseCalls_append]
    simp only [phaseCalls, Entry.workerCall, List.filterMap_cons, List.filterMap_nil, if_true,
      List.length_singleton] at this ⊢
    omega
  | clock _ hpc =>
    intro _
    have h0 : phaseCalls s.phase s.log = 0 := phaseCalls_eq_zero fun j =>
      hi.idle j (by simp [hi.clock _ hpc])
    simp [h0, hi.clock _ hpc, callingCount]
  | spawn _ hpc =>
    exact h.of_move (by simp [hpc, Pc.clocked]) rfl (by simp [callingCount, Worker.new]) le_rfl rfl rfl
  | spawnEnd _ hpc | closeCh _ hpc | wait _ hpc =>
    exact h.of_move (by simp [hpc, Pc.clocked]) rfl rfl le_rfl rfl rfl
  | exitPanic | bulkPanic | startPanic | measurePanic | bulk | save | bulkDone | mem | disk | start =>
    exact Paced.of_unclocked rfl
  | probe | measure => exact Paced.of_unclocked (by dsimp only; split <;> rfl)

end

section
variable {s : Sys σ} {k : Kind}

/-- Once every worker has finished, worker `j` has finished exactly when `j < c`. -/
theorem Inv.doneAt_of_joined (hi : Inv f s) (hpc : s.pc = .measure k)
    (hall : ∀ w ∈ s.workers, w.pc = .done) (j : Nat) : doneAt s.workers j = decide (j < f.c.toNat) := by
  have hlen := (hi.running k (by simp [hpc, Pc.running])).2
  have hst := hi.started (by simp [hpc, Pc.started])
  unfold doneAt
  rcases Nat.lt_or_ge j s.workers.length with h | h
  · simp [List.getElem?_eq_getElem h, hall _ (List.getElem_mem h)]; omega
  · simp [List.getElem?_eq_none h]; omega

/-- Once every worker has finished, slot `j` of `counts` holds the iterations
    of worker `j`, as an `int`. -/
theorem Inv.counts_of_joined (hi : Inv f s) (hpc : s.pc = .measure k)
    (hall : ∀ w ∈ s.workers, w.pc = .done) :
    s.counts = (List.range f.c.toNat).map (fun j => goInt (callsBy k j s.log)) := by
  obtain ⟨rfl, hlen⟩ := hi.running k (by simp [hpc, Pc.running])
  apply List.ext_getElem?
  intro j
  rcases Nat.lt_or_ge j s.counts.length with h | h
  · rw [hi.counts j h, List.getElem?_map, List.getElem?_range (by omega), hi.doneAt_of_joined hpc hall]
    simp; omega
  · rw [List.getElem?_eq_none h, List.getElem?_eq_none (by simp; omega)]

/-- Once every worker has finished, `sumCounts` sums the phase's store calls,
    as an `int`. -/
theorem Inv.sumCounts_of_joined (hi : Inv f s) (hpc : s.pc = .measure k)
    (hall : ∀ w ∈ s.workers, w.pc = .done) :
    sumCounts s.counts = goInt (phaseCalls k s.log) := by
  obtain ⟨rfl, hlen⟩ := hi.running k (by simp [hpc, Pc.running])
  have hst := hi.started (by simp [hpc, Pc.started])
  have hlt : ∀ x ∈ s.log.filterMap (Entry.workerCall s.phase), x.1 < f.c.toNat := by
    intro x hx
    by_contra h
    have := hi.idle x.1 (by omega)
    simp only [callsBy, callsOf, List.length_eq_zero, List.filter_eq_nil_iff] at this
    simpa using this x hx
  rw [sumCounts_eq, hi.counts_of_joined hpc hall, goInt_sum_map_goInt, phaseCalls, length_eq_sum_filter _ hlt,
    Nat.cast_list_sum, List.map_map]
  rfl

end

end KvBench
