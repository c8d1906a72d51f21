/-
  kvbench formalization — the workers of a time-bounded phase and the
  `counts` slice they fill.

  The log records every store call a worker makes and every `counts` write;
  `callsBy k j log` is the number of iterations worker `j` of phase `k` has
  run, `indicesOf` the indices it passed to `genKey`, `slotsBy` the slots of
  `counts` it wrote.

  * `Inv` holds of every reachable state: the workers started so far are
    `0, …, j - 1`, each tracking its own iterations in `count` and `i`; a
    finished worker has written its `count` into its own slot and into no
    other; the WaitGroup counter and the finished workers add up to `*c`
    modulo `2^32`; a worker still in its loop belongs to the running phase,
    past `wg.Wait()` only when the counter fell short of `*c`; the indices of
    every worker of every phase follow `indices`;
  * `Inv.step` shows one `Step` keeps it, `reachable_inv` that every run does;
  * `Looping.iterate`: a worker before its deadline runs as many iterations
    as there are nanoseconds left, each logging one store call of its own;
  * `start_clock`, `spawn_all`, `iterate_once`: `wg.Add(*c)` to `start`, the
    loop starting the workers, and one iteration, as runs.
-/
import KvBench.Steps

namespace KvBench

/-! ## Worker entries of the log -/

namespace Entry

/-- The phase of the worker that made an entry, if a worker made it. -/
def workerPhase : Entry → Option Kind
  | .call (.worker k _) _ _ _ => some k
  | .slot k _ _ => some k
  | _ => none

/-- A store call of a worker of phase `k`: the worker, the index and the reply. -/
def workerCall (k : Kind) : Entry → Option (Nat × UInt64 × Reply)
  | .call (.worker k' j) i _ r => if k' = k then some (j, i, r) else none
  | _ => none

/-- A `counts` write of a worker of phase `k`: the worker and the slot. -/
def slotWrite (k : Kind) : Entry → Option (Nat × Nat)
  | .slot k' j x => if k' = k then some (j, x) else none
  | _ => none

theorem workerCall_of_workerPhase {e : Entry} (h : e.workerPhase = none) (k : Kind) :
    e.workerCall k = none := by
  rcases e with _ | ⟨_ | _ | _⟩ | _ <;> simp_all [workerPhase, workerCall]

theorem slotWrite_of_workerPhase {e : Entry} (h : e.workerPhase = none) (k : Kind) :
    e.slotWrite k = none := by
  rcases e with _ | ⟨_ | _ | _⟩ | _ <;> simp_all [workerPhase, slotWrite]

end Entry

section
variable (k : Kind) (j : Nat) (log : List Entry)

/-- The store calls of worker `j` of phase `k`, in order. -/
def callsOf : List (Nat × UInt64 × Reply) :=
  (log.filterMap (Entry.workerCall k)).filter (·.1 == j)

/-- The iterations worker `j` of phase `k` has run. -/
def callsBy : Nat := (callsOf k j log).length

/-- The indices it passed to `genKey`. -/
def indicesOf : List UInt64 := (callsOf k j log).map (·.2.1)

/-- Whether each of its iterations sent it back to its start index. -/
def resetsOf : List Bool := (callsOf k j log).map (k.resets ·.2.2)

/-- The slots of `counts` it wrote. -/
def slotsBy : List Nat := ((log.filterMap (Entry.slotWrite k)).filter (·.1 == j)).map (·.2)

end

section
variable {k : Kind} {j : Nat} {log L : List Entry}

theorem callsOf_append_driver (hL : ∀ e ∈ L, e.workerPhase = none) :
    callsOf k j (log ++ L) = callsOf k j log := by
  simp [callsOf, List.filterMap_eq_nil_iff.2 fun e he => Entry.workerCall_of_workerPhase (hL e he) k]

theorem slotsBy_append_driver (hL : ∀ e ∈ L, e.workerPhase = none) :
    slotsBy k j (log ++ L) = slotsBy k j log := by
  simp [slotsBy, List.filterMap_eq_nil_iff.2 fun e he => Entry.slotWrite_of_workerPhase (hL e he) k]

@[simp] theorem callsOf_append_call {k' : Kind} {j' : Nat} {i : UInt64} {op : Op} {r : Reply} :
    callsOf k j (log ++ [.call (.worker k' j') i op r]) =
      callsOf k j log ++ if k' = k ∧ j' = j then [(j, i, r)] else [] := by
  by_cases h : k' = k <;> by_cases h' : j' = j <;> simp [callsOf, Entry.workerCall, h, h']

@[simp] theorem callsOf_append_slot {k' : Kind} {j' x : Nat} :
    callsOf k j (log ++ [.slot k' j' x]) = callsOf k j log := by
  simp [callsOf, Entry.workerCall]

@[simp] theorem slotsBy_append_call {k' : Kind} {j' : Nat} {i : UInt64} {op : Op} {r : Reply} :
    slotsBy k j (log ++ [.call (.worker k' j') i op r]) = slotsBy k j log := by
  simp [slotsBy, Entry.slotWrite]

@[simp] theorem slotsBy_append_slot {k' : Kind} {j' x : Nat} :
    slotsBy k j (log ++ [.slot k' j' x]) = slotsBy k j log ++ if k' = k ∧ j' = j then [x] else [] := by
  by_cases h : k' = k <;> by_cases h' : j' = j <;> simp [slotsBy, Entry.slotWrite, h, h']

end

/-! ## Where the driver is -/

/-- The rank of a phase in `main`'s order. -/
def Kind.rank : Kind → Nat
  | .keys => 0
  | .set => 1
  | .get => 2
  | .getSet => 3
  | .del => 4

/-- Every worker entry of the log belongs to a phase of rank below `pc.bound`. -/
def Pc.bound : Pc → Nat
  | .bulk | .bulkDone | .mem | .disk | .probe => 0
  | .start k => k.rank
  | .clock k | .spawn k _ | .wait k | .measure k => k.rank + 1
  | .closeCh => Kind.getSet.rank + 1
  | .save | .exited | .panicked => Kind.del.rank + 1

/-- The phase whose workers and `counts` slice are live at `pc`. -/
def Pc.running : Pc → Option Kind
  | .clock k | .spawn k _ | .wait k | .measure k => some k
  | .closeCh => some .getSet
  | _ => none

/-- Whether every worker of the phase has been started: `wg.Wait()` and after. -/
def Pc.started : Pc → Bool
  | .wait _ | .closeCh | .measure _ => true
  | _ => false

theorem Pc.running_of_started {pc : Pc} (h : pc.started) : ∃ k, pc.running = some k := by
  cases pc <;> first | exact ⟨_, rfl⟩ | cases h

/-! ## Finished workers -/

/-- Whether worker `j` has finished its loop. -/
def doneAt (ws : List Worker) (j : Nat) : Bool := ws[j]?.any (·.pc == .done)

/-- The number of workers that have finished. -/
def doneCount (ws : List Worker) : Nat := ws.countP (·.pc == .done)

theorem doneAt_set {ws : List Worker} {j j' : Nat} {w : Worker} (hj : j < ws.length) :
    doneAt (ws.set j w) j' = if j = j' then w.pc == .done else doneAt ws j' := by
  by_cases h : j = j'
  · subst h; simp [doneAt, List.getElem?_set, hj]
  · simp [doneAt, List.getElem?_set, h]

theorem doneAt_append_new {ws : List Worker} {j j' : Nat} :
    doneAt (ws ++ [Worker.new j]) j' = doneAt ws j' := by
  unfold doneAt
  rcases Nat.lt_or_ge j' ws.length with h | h
  · rw [List.getElem?_append_left h]
  · rw [List.getElem?_append_right h, List.getElem?_eq_none h]
    cases j' - ws.length <;> simp [Worker.new]

/-- A worker of the phase: its `index` is `uint64(j)`, its `count` the iterations
    it has run and `i` the index after them. -/
def Worker.Tracks (f : Flags) (k : Kind) (log : List Entry) (j : Nat) (w : Worker) : Prop :=
  w.index = UInt64.ofNat j ∧ w.count = goInt (callsBy k j log) ∧
    w.i = after f.stride (UInt64.ofNat j) (UInt64.ofNat j) (resetsOf k j log)

/-! ## The invariant -/

variable {σ : Type} (f : Flags) (B : Store σ)

/-- What holds of every reachable state of a run. -/
structure Inv (s : Sys σ) : Prop where
  /-- no worker entry of a phase the driver has not reached -/
  ordered : ∀ (k : Kind) (j : Nat), s.pc.bound ≤ k.rank → callsBy k j s.log = 0 ∧ slotsBy k j s.log = []
  clock : ∀ k, s.pc = .clock k → s.workers = []
  spawn : ∀ k j, s.pc = .spawn k j → j = s.workers.length
  running : ∀ k, s.pc.running = some k → s.phase = k ∧ s.counts.length = f.c.toNat
  started : s.pc.started → s.workers.length = s.counts.length
  busy : ∀ w ∈ s.workers, w.pc ≠ .done → s.pc = .panicked ∨
    s.pc.running = some s.phase ∧ (s.pc.started → s.pc = .wait s.phase ∨ 2 ^ 32 ≤ f.c)
  len : s.workers.length ≤ s.counts.length
  size : s.counts.length ≤ f.c.toNat
  nonneg : s.pc.running.isSome → 0 ≤ f.c
  tracks : ∀ (j : Nat) (w : Worker), s.workers[j]? = some w → w.Tracks f s.phase s.log j
  counts : ∀ j < s.counts.length, s.counts[j]? =
    some (if doneAt s.workers j then goInt (callsBy s.phase j s.log) else 0)
  slots : ∀ j, slotsBy s.phase j s.log = if doneAt s.workers j then [j] else []
  idle : ∀ j, s.workers.length ≤ j → callsBy s.phase j s.log = 0
  wg : s.wg + doneCount s.workers = (s.counts.length % 2 ^ 32 : Nat)
  wg_nonneg : 0 ≤ s.wg
  joined : s.pc.started → (∀ k, s.pc ≠ .wait k) → s.wg = 0
  stride : ∀ (k : Kind) (j : Nat), indicesOf k j s.log =
    indices f.stride (UInt64.ofNat j) (UInt64.ofNat j) (resetsOf k j s.log)

variable {f B}

/-! ## Each step keeps the invariant -/

section
variable {s s' : Sys σ}

theorem Kind.rank_next {k k' : Kind} (h : k.next = some k') : k'.rank = k.rank + 1 := by
  cases k <;> simp [Kind.next] at h <;> subst h <;> rfl

theorem Kind.rank_le (k : Kind) : k.rank ≤ Kind.del.rank := by
  cases k <;> decide

/-- A step that adds no worker, writes no slot, leaves the WaitGroup alone and
    logs no worker entry keeps `Inv`, given what the driver's new place needs. -/
theorem Inv.of_pool (hi : Inv f s) {L : List Entry} (hL : ∀ e ∈ L, e.workerPhase = none)
    (hlog : s'.log = s.log ++ L) (hph : s'.phase = s.phase) (hws : s'.workers = s.workers)
    (hc : s'.counts = s.counts) (hwg : s'.wg = s.wg) (hbound : s.pc.bound ≤ s'.pc.bound)
    (hrun : ∀ k, s'.pc.running = some k → s.pc.running = some k)
    (hclock : ∀ k, s'.pc = .clock k → s.workers = [])
    (hspawn : ∀ k j, s'.pc = .spawn k j → j = s.workers.length)
    (hstarted : s'.pc.started → s.workers.length = s.counts.length)
    (hjoined : s'.pc.started → (∀ k, s'.pc ≠ .wait k) → s.wg = 0)
    (hbusy : ∀ w ∈ s.workers, w.pc ≠ .done → s'.pc = .panicked ∨
      s'.pc.running = some s.phase ∧ (s'.pc.started → s'.pc = .wait s.phase ∨ 2 ^ 32 ≤ f.c)) :
    Inv f s' := by
  have hcalls : ∀ k j, callsOf k j s'.log = callsOf k j s.log := fun _ _ => hlog ▸ callsOf_append_driver hL
  have hslots : ∀ k j, slotsBy k j s'.log = slotsBy k j s.log := fun _ _ => hlog ▸ slotsBy_append_driver hL
  have hb : ∀ k j, callsBy k j s'.log = callsBy k j s.log := fun k j => by rw [callsBy, hcalls]; rfl
  have hr : ∀ k j, resetsOf k j s'.log = resetsOf k j s.log := fun k j => by rw [resetsOf, hcalls]; rfl
  have hx : ∀ k j, indicesOf k j s'.log = indicesOf k j s.log := fun k j => by rw [indicesOf, hcalls]; rfl
  constructor
  case ordered => intro k j hk; rw [hb, hslots]; exact hi.ordered k j (le_trans hbound hk)
  case running => intro k h; rw [hph, hc]; exact hi.running k (hrun k h)
  case tracks => intro j w h; rw [hws] at h; simpa [Worker.Tracks, hph, hb, hr] using hi.tracks j w h
  case counts => intro j hj; rw [hc] at hj ⊢; simpa [hws, hph, hb] using hi.counts j hj
  case slots => intro j; simpa [hws, hph, hslots] using hi.slots j
  case idle => intro j hj; rw [hph, hb]; exact hi.idle j (hws ▸ hj)
  case stride => intro k j; rw [hx, hr]; exact hi.stride k j
  case nonneg =>
    intro h
    obtain ⟨k, hk⟩ := Option.isSome_iff_exists.1 h
    exact hi.nonneg (by simp [hrun k hk])
  all_goals simp only [hws, hc, hwg, hph]
  exacts [hclock, hspawn, hstarted, hbusy, hi.len, hi.size, hi.wg, hi.wg_nonneg, hjoined]

/-- Without a worker left to run, the driver may move on to any later place
    outside a phase. -/
theorem Inv.leave (hi : Inv f s) {L : List Entry} (hL : ∀ e ∈ L, e.workerPhase = none)
    (hlog : s'.log = s.log ++ L) (hph : s'.phase = s.phase) (hws : s'.workers = s.workers)
    (hc : s'.counts = s.counts) (hwg : s'.wg = s.wg) (hbound : s.pc.bound ≤ s'.pc.bound)
    (hq : s'.pc.running = none) (hdone : ∀ w ∈ s.workers, w.pc = .done) : Inv f s' :=
  hi.of_pool hL hlog hph hws hc hwg hbound (fun k h => by simp [hq] at h)
    (fun k h => by simp [h, Pc.running] at hq) (fun k j h => by simp [h, Pc.running] at hq)
    (fun h => by obtain ⟨k, hk⟩ := Pc.running_of_started h; simp [hq] at hk)
    (fun h => by obtain ⟨k, hk⟩ := Pc.running_of_started h; simp [hq] at hk)
    (fun w hw hne => absurd (hdone w hw) hne)

/-- Every worker has finished outside a phase, unless the run has panicked. -/
theorem Inv.all_done (hi : Inv f s) (hh : s.pc ≠ .panicked) (hq : s.pc.running = none) :
    ∀ w ∈ s.workers, w.pc = .done := by
  intro w hw
  by_contra hne
  rcases hi.busy w hw hne with h | ⟨h, -⟩
  exacts [hh h, by simp [hq] at h]

/-- A worker that has not finished runs in the phase of the driver's place. -/
theorem Inv.active (hi : Inv f s) (hh : s.pc ≠ .panicked) {w : Worker} (hw : w ∈ s.workers)
    (hne : w.pc ≠ .done) : s.pc.running = some s.phase ∧ s.phase.rank < s.pc.bound := by
  obtain ⟨h, -⟩ := (hi.busy w hw hne).resolve_left hh
  refine ⟨h, ?_⟩
  cases hpc : s.pc <;> simp_all [Pc.running, Pc.bound]

/-- The index of worker `j` is `j` itself: `j < c < 2^63`. -/
theorem Inv.index_toNat (hi : Inv f s) {j : Nat} {w : Worker} (hw : s.workers[j]? = some w) :
    w.index.toNat = j ∧ j < s.counts.length := by
  have hj : j < s.workers.length := (List.getElem?_eq_some_iff.1 hw).1
  have := f.c_lt
  have := hi.size
  have hlt : j < s.counts.length := lt_of_lt_of_le hj hi.len
  refine ⟨?_, hlt⟩
  rw [(hi.tracks j w hw).1, UInt64.toNat_ofNat', Nat.mod_eq_of_lt (by omega)]

/-- `wg.Add(*c)`, a fresh `counts` slice and no worker yet: the phase starts
    with nothing of its own in the log. -/
theorem Inv.of_start (hi : Inv f s) {k : Kind} (hpc : s.pc = .start k) (hc : 0 ≤ f.c) (s₁ : Sys σ)
    (h₁ : s₁.log = s.log) :
    Inv f { s₁ with pc := .clock k, phase := k, wg := f.c % 2 ^ 32, workers := [],
                    counts := List.replicate f.c.toNat 0, deadline := s₁.now + f.duration,
                    ctxDone := decide (f.duration ≤ 0), log := s₁.log ++ [.begin k] } := by
  have hL : ∀ e ∈ [Entry.begin k], e.workerPhase = none := fun _ h => List.mem_singleton.1 h ▸ rfl
  have hcalls : ∀ k' j, callsOf k' j (s₁.log ++ [.begin k]) = callsOf k' j s.log := fun _ _ => by
    rw [callsOf_append_driver hL, h₁]
  have hslots : ∀ k' j, slotsBy k' j (s₁.log ++ [.begin k]) = slotsBy k' j s.log := fun _ _ => by
    rw [slotsBy_append_driver hL, h₁]
  have hnew : ∀ j, callsBy k j s.log = 0 ∧ slotsBy k j s.log = [] := fun j =>
    hi.ordered k j (by simp [hpc, Pc.bound])
  constructor
  case ordered =>
    intro k' j h
    simp only [callsBy, hcalls, hslots]
    exact hi.ordered k' j (by simp only [hpc, Pc.bound] at h ⊢; omega)
  case running => intro k' h; simp_all [Pc.running]
  case counts => intro j hj; simp_all [doneAt]
  case slots => intro j; simp [hslots, hnew, doneAt]
  case idle => intro j _; simp only [callsBy, hcalls]; exact (hnew j).1
  case wg => simp [doneCount]; omega
  case wg_nonneg => exact Int.emod_nonneg _ (by decide)
  case stride => intro k' j; simp only [indicesOf, resetsOf, hcalls]; exact hi.stride k' j
  case nonneg => exact fun _ => hc
  all_goals simp [Pc.started]

/-- `go func() {…}()` for worker `j`: it starts at `i = index = uint64(j)`
    with `count = 0`, having run nothing. -/
theorem Inv.of_spawn (hi : Inv f s) {k : Kind} {j : Nat} (hpc : s.pc = .spawn k j) (hj : (j : Int) < f.c) :
    Inv f { s with workers := s.workers ++ [Worker.new j], pc := .spawn k (j + 1) } := by
  have hjl := hi.spawn k j hpc
  obtain ⟨hph, hlen⟩ := hi.running k (by simp [hpc, Pc.running])
  have hidle : callsOf s.phase j s.log = [] := List.length_eq_zero.1 (hi.idle j hjl.ge)
  constructor
  case ordered => exact fun k' j' h => hi.ordered k' j' (by simpa [hpc, Pc.bound] using h)
  case spawn => intro k' j' h; simp at h; simp [← h.2, hjl]
  case running => intro k' h; simpa [hph, hlen, Pc.running] using h
  case busy => intro w _ _; exact .inr ⟨by simp [hph, Pc.running], by simp [Pc.started]⟩
  case len => simp; omega
  case tracks =>
    intro j' w h
    rcases Nat.lt_or_ge j' s.workers.length with h' | h'
    · rw [List.getElem?_append_left h'] at h; exact hi.tracks j' w h
    · rw [List.getElem?_append_right h'] at h
      obtain ⟨hd, rfl⟩ : j' - s.workers.length = 0 ∧ Worker.new j = w := by
        cases hd : j' - s.workers.length <;> simp_all
      obtain rfl : j' = j := by omega
      simp [Worker.Tracks, Worker.new, callsBy, resetsOf, hidle]
  case counts => intro j' hj'; simpa [doneAt_append_new] using hi.counts j' hj'
  case slots => intro j'; simpa [doneAt_append_new] using hi.slots j'
  case idle => intro j' h; exact hi.idle j' (by simp at h; omega)
  case wg => simp [doneCount, List.countP_append, Worker.new]; exact hi.wg
  case stride => exact hi.stride
  case nonneg => exact fun _ => hi.nonneg (by simp [hpc, Pc.running])
  all_goals first | exact hi.size | exact hi.wg_nonneg | simp [Pc.started]

theorem doneAt_set_of_running {ws : List Worker} {j : Nat} {w w' : Worker} (hw : ws[j]? = some w)
    (hne : w.pc ≠ .done) (hne' : w'.pc ≠ .done) : doneAt (ws.set j w') = doneAt ws := by
  funext j'
  rw [doneAt_set (List.getElem?_eq_some_iff.1 hw).1]
  by_cases h : j = j' <;> simp_all [doneAt]

theorem doneCount_set_of_running {ws : List Worker} {j : Nat} {w w' : Worker} (hw : ws[j]? = some w)
    (hne : w.pc ≠ .done) (hne' : w'.pc ≠ .done) : doneCount (ws.set j w') = doneCount ws := by
  obtain ⟨hj, rfl⟩ := List.getElem?_eq_some_iff.1 hw
  simp [doneCount, List.countP_set _ _ _ _ hj, hne, hne']

/-- Worker `j` leaves its `select` for `counts[index] = count; wg.Done()`: it
    writes its own slot. -/
theorem Inv.of_exit (hi : Inv f s) {j : Nat} {w : Worker} (hw : s.workers[j]? = some w)
    (hpc : w.pc = .select) (hh : s.pc ≠ .panicked) (hwg : s.wg ≠ 0) :
    Inv f { s with workers := s.workers.set j { w with pc := .done },
                   counts := s.counts.set w.index.toNat w.count, wg := s.wg - 1,
                   log := s.log ++ [.slot s.phase j w.index.toNat] } := by
  have hne : w.pc ≠ .done := by simp [hpc]
  obtain ⟨hx, hjc⟩ := hi.index_toNat hw
  obtain ⟨-, hlt⟩ := hi.active hh (List.getElem?_mem hw) hne
  obtain ⟨hj, hget⟩ := List.getElem?_eq_some_iff.1 hw
  have hdj : doneAt s.workers j = false := by simp [doneAt, hw, hpc]
  rw [hx]
  constructor
  case ordered =>
    intro k j' hk
    have : s.phase ≠ k := by rintro rfl; simp only at hk; omega
    simpa [callsBy, this] using hi.ordered k j' hk
  case clock => intro k h; simp [hi.clock k h] at hj
  case spawn => intro k j' h; simpa using hi.spawn k j' h
  case running => intro k h; simpa using hi.running k h
  case started => intro h; simpa using hi.started h
  case busy =>
    intro w' hw' hne'
    rcases List.mem_or_eq_of_mem_set hw' with hw' | rfl
    · exact hi.busy w' hw' hne'
    · simp at hne'
  case len => simpa using hi.len
  case tracks =>
    intro j' w' h
    rw [List.getElem?_set] at h
    split at h
    · simp only [hj, ↓reduceIte, Option.some.injEq] at h
      subst h
      simpa [Worker.Tracks, callsBy, resetsOf, *] using hi.tracks j w hw
    · simpa [Worker.Tracks, callsBy, resetsOf] using hi.tracks j' w' h
  case counts =>
    intro j' hj'
    rw [List.length_set] at hj'
    rw [List.getElem?_set, doneAt_set hj]
    by_cases h : j = j'
    · subst h; simp [hjc, (hi.tracks j w hw).2.1, callsBy]
    · simpa [h, callsBy] using hi.counts j' hj'
  case slots =>
    intro j'
    rw [slotsBy_append_slot, hi.slots j', doneAt_set hj]
    by_cases h : j = j'
    · subst h; simp [hdj]
    · simp [h, Ne.symm h]
  case idle => intro j' h; simpa [callsBy] using hi.idle j' (by simpa using h)
  case wg =>
    have h := hi.wg
    simp only [doneCount] at h ⊢
    rw [List.length_set, List.countP_set _ _ _ _ hj]
    simp [hget, hpc]; omega
  case wg_nonneg => have := hi.wg_nonneg; simp only; omega
  case joined => exact fun h hw => absurd (hi.joined h hw) hwg
  case size => simpa using hi.size
  case nonneg => exact hi.nonneg
  case stride => intro k j'; simpa [indicesOf, resetsOf] using hi.stride k j'

/-- Worker `j` takes the `default` branch. -/
theorem Inv.of_enter (hi : Inv f s) {j : Nat} {w : Worker} (hw : s.workers[j]? = some w)
    (hpc : w.pc = .select) :
    Inv f { s with now := s.now + 1, workers := s.workers.set j { w with pc := .call } } := by
  have hne : w.pc ≠ .done := by simp [hpc]
  have hne' : ({ w with pc := .call } : Worker).pc ≠ .done := by simp
  have hd := doneAt_set_of_running hw hne hne'
  have hj : j < s.workers.length := (List.getElem?_eq_some_iff.1 hw).1
  constructor
  case clock => intro k h; simp [hi.clock k h] at hj
  case spawn => intro k j' h; simpa using hi.spawn k j' h
  case running => intro k h; simpa using hi.running k h
  case started => intro h; simpa using hi.started h
  case busy =>
    intro w' hw' hne'
    rcases List.mem_or_eq_of_mem_set hw' with hw' | rfl
    exacts [hi.busy w' hw' hne', hi.busy w (List.getElem?_mem hw) hne]
  case len => simpa using hi.len
  case tracks =>
    intro j' w' h
    rw [List.getElem?_set] at h
    split at h
    · simp only [hj, ↓reduceIte, Option.some.injEq] at h
      subst h; subst j'
      exact hi.tracks j w hw
    · exact hi.tracks j' w' h
  case counts => intro j' hj'; simpa [hd] using hi.counts j' hj'
  case slots => intro j'; simpa [hd] using hi.slots j'
  case idle => intro j' h; exact hi.idle j' (by simpa using h)
  case wg => simpa [doneCount_set_of_running hw hne hne'] using hi.wg
  all_goals first
    | exact hi.ordered | exact hi.stride | exact hi.size | exact hi.nonneg | exact hi.wg_nonneg | exact hi.joined

/-- Worker `j` calls the store at `i` and ends its iteration: `i` moves on by
    the stride, or back to `index` on a reset, and `count` grows by one. -/
theorem Inv.of_call (hi : Inv f s) {j : Nat} {w : Worker} (hw : s.workers[j]? = some w)
    (hpc : w.pc = .call) (hh : s.pc ≠ .panicked) (st : σ) (op : Op) (r : Reply) :
    Inv f { s with store := st, workers := s.workers.set j (w.advance f.stride (s.phase.resets r)),
                   log := s.log ++ [.call (.worker s.phase j) w.i op r] } := by
  have hne : w.pc ≠ .done := by simp [hpc]
  have hne' : (w.advance f.stride (s.phase.resets r)).pc ≠ .done := by simp [Worker.advance]
  have hd := doneAt_set_of_running hw hne hne'
  obtain ⟨-, hlt⟩ := hi.active hh (List.getElem?_mem hw) hne
  have hj : j < s.workers.length := (List.getElem?_eq_some_iff.1 hw).1
  obtain ⟨hindex, hcount, hi'⟩ := hi.tracks j w hw
  constructor
  case ordered =>
    intro k j' hk
    have : s.phase ≠ k := by rintro rfl; simp only at hk; omega
    simpa [callsBy, this] using hi.ordered k j' hk
  case clock => intro k h; simp [hi.clock k h] at hj
  case spawn => intro k j' h; simpa using hi.spawn k j' h
  case running => intro k h; simpa using hi.running k h
  case started => intro h; simpa using hi.started h
  case busy =>
    intro w' hw' hne'
    rcases List.mem_or_eq_of_mem_set hw' with hw' | rfl
    exacts [hi.busy w' hw' hne', hi.busy w (List.getElem?_mem hw) hne]
  case len => simpa using hi.len
  case tracks =>
    intro j' w' h
    rw [List.getElem?_set] at h
    split at h
    · simp only [hj, ↓reduceIte, Option.some.injEq] at h
      subst h; subst j'
      refine ⟨hindex, ?_, ?_⟩
      · simp [Worker.advance, callsBy, hcount, goInt_add]
      · simp [Worker.advance, resetsOf, after_append_single, hindex, hi', resetsOf]
    · rename_i h'
      simpa [Worker.Tracks, callsBy, resetsOf, h'] using hi.tracks j' w' h
  case counts =>
    intro j' hj'
    by_cases h : j = j'
    · subst h
      have : doneAt s.workers j = false := by simp [doneAt, hw, hpc]
      rw [hd]; simpa [this] using hi.counts j hj'
    · simpa [hd, callsBy, h] using hi.counts j' hj'
  case slots => intro j'; simpa [hd] using hi.slots j'
  case idle =>
    intro j' h
    have : j ≠ j' := by simp at h; omega
    simpa [callsBy, this] using hi.idle j' (by simpa using h)
  case wg => simpa [doneCount_set_of_running hw hne hne'] using hi.wg
  case wg_nonneg => exact hi.wg_nonneg
  case joined => exact hi.joined
  case size => simpa using hi.size
  case nonneg => exact hi.nonneg
  case stride =>
    intro k j'
    by_cases h : s.phase = k ∧ j = j'
    · obtain ⟨rfl, rfl⟩ := h
      simp only [indicesOf, resetsOf, callsOf_append_call, and_self, ↓reduceIte, List.map_append,
        List.map_cons, List.map_nil]
      rw [indices_append_single, hi']
      exact congrArg (· ++ [_]) (hi.stride s.phase j)
    · simpa [indicesOf, resetsOf, h] using hi.stride k j'

/-- A step that keeps the driver where it is and touches no worker. -/
theorem Inv.frame (hi : Inv f s) {L : List Entry} (hL : ∀ e ∈ L, e.workerPhase = none)
    (hlog : s'.log = s.log ++ L) (hpc : s'.pc = s.pc) (hph : s'.phase = s.phase)
    (hws : s'.workers = s.workers) (hc : s'.counts = s.counts) (hwg : s'.wg = s.wg) : Inv f s' :=
  hi.of_pool hL hlog hph hws hc hwg (hpc ▸ le_rfl) (fun _ h => hpc ▸ h)
    (fun k h => hi.clock k (hpc ▸ h)) (fun k j h => hi.spawn k j (hpc ▸ h))
    (fun h => hi.started (hpc ▸ h)) (fun h hw => hi.joined (hpc ▸ h) (hpc ▸ hw))
    (fun w hw hne => hpc ▸ hi.busy w hw hne)

theorem Inv.init (st : σ) (l : Ledger) : Inv f (Sys.init f st l) := by
  constructor <;> simp [Sys.init, Pc.bound, Pc.running, Pc.started, callsBy, callsOf, slotsBy,
    indicesOf, resetsOf, doneAt, doneCount]

theorem Pc.bound_le_panicked (pc : Pc) : pc.bound ≤ Pc.panicked.bound := by
  cases pc <;> simp only [Pc.bound] <;> first
    | exact Nat.le_succ_of_le (Kind.rank_le _) | exact Nat.succ_le_succ (Kind.rank_le _) | exact Nat.zero_le _

/-- A panic ends the run, everything else as it was. -/
theorem Inv.panic (hi : Inv f s) : Inv f { s with pc := .panicked } :=
  hi.of_pool (L := []) (by simp) (List.append_nil _).symm rfl rfl rfl rfl (Pc.bound_le_panicked _)
    (by simp [Pc.running]) (by simp) (by simp) (by simp [Pc.started]) (by simp [Pc.started])
    (fun _ _ _ => .inl rfl)

/-- Every `Step` keeps `Inv`. -/
theorem Inv.step (hs : Step f B s s') (hi : Inv f s) : Inv f s' := by
  have nil : ∀ e ∈ ([] : List Entry), e.workerPhase = none := by simp
  have single : ∀ {e : Entry}, e.workerPhase = none → ∀ e' ∈ [e], e'.workerPhase = none :=
    fun h _ h' => List.mem_singleton.1 h' ▸ h
  have hn := (List.append_nil s.log).symm
  have hh := hs.not_panicked
  have done := hi.all_done hh
  cases hs with
  | elapse => exact hi.frame nil hn rfl rfl rfl rfl rfl
  | fire => exact hi.frame nil hn rfl rfl rfl rfl rfl
  | wselect => exact hi.frame nil hn rfl rfl rfl rfl rfl
  | wcount => exact hi.frame nil hn rfl rfl rfl rfl rfl
  | wcall => exact hi.frame (by exact single rfl) rfl rfl rfl rfl rfl rfl
  | exit _ hw hpc _ hwg => exact hi.of_exit hw hpc hh hwg
  | enter _ hw hpc => exact hi.of_enter hw hpc
  | call d _ hw hpc => exact hi.of_call hw hpc hh _ _ _
  | exitPanic | bulkPanic | startPanic | measurePanic => exact hi.panic
  | start _ hpc hc => exact hi.of_start hpc hc _ (by split <;> rfl)
  | spawn _ hpc hj => exact hi.of_spawn hpc hj
  | clock _ hpc =>
    exact hi.of_pool nil hn rfl rfl rfl rfl (by simp [hpc, Pc.bound]) (by simp [hpc, Pc.running])
      (by simp) (fun _ _ h => by cases h; simp [hi.clock _ hpc]) (by simp [Pc.started]) (by simp [Pc.started])
      (fun w hw => by simp [hi.clock _ hpc] at hw)
  | spawnEnd _ hpc hj =>
    obtain ⟨rfl, hlen⟩ := hi.running _ (congrArg Pc.running hpc)
    have := hi.spawn _ _ hpc
    have := hi.len
    exact hi.of_pool nil hn rfl rfl rfl rfl (by simp [hpc, Pc.bound]) (by simp [hpc, Pc.running])
      (by simp) (by simp) (fun _ => by omega) (fun _ h => absurd rfl (h _))
      (fun _ _ _ => .inr ⟨by simp [Pc.running], fun _ => .inl rfl⟩)
  | wait _ hpc hwg =>
    obtain ⟨rfl, hlen⟩ := hi.running _ (congrArg Pc.running hpc)
    have hst := hi.started (by simp [hpc, Pc.started])
    -- a worker still in its loop: the counter was short of `*c`
    have hbig : ∀ w ∈ s.workers, w.pc ≠ .done → 2 ^ 32 ≤ f.c := by
      intro w hw hne
      have h := hi.wg
      have hlt : doneCount s.workers < s.workers.length :=
        lt_of_le_of_ne (List.countP_le_length _) fun he => hne (by simpa using List.countP_eq_length.1 he w hw)
      have := hi.nonneg (by simp [hpc, Pc.running])
      omega
    exact hi.of_pool nil hn rfl rfl rfl rfl (by split <;> rename_i hk <;> simp [hpc, hk, Pc.bound])
      (by split <;> rename_i hk <;> simp [hpc, hk, Pc.running]) (by split <;> simp) (by split <;> simp)
      (fun _ => hst) (fun _ _ => hwg) (fun w hw hne => .inr ⟨by split <;> rename_i hk <;> simp [hk, Pc.running],
        fun _ => .inr (hbig w hw hne)⟩)
  | closeCh _ hpc =>
    exact hi.of_pool nil hn rfl rfl rfl rfl (by simp [hpc, Pc.bound]) (by simp [hpc, Pc.running])
      (by simp) (by simp) (fun _ => hi.started (by simp [hpc, Pc.started]))
      (fun _ _ => hi.joined (by simp [hpc, Pc.started]) (by simp [hpc])) fun w hw hne => by
        rcases hi.busy w hw hne with h | ⟨h₁, h₂⟩
        · exact absurd h hh
        · simp only [hpc, Pc.running, Pc.started, reduceCtorEq, false_or, forall_const] at h₁ h₂ ⊢
          exact ⟨h₁, h₂⟩
  | measure _ hpc _ hall =>
    refine hi.leave nil hn rfl rfl rfl rfl ?_ (by split <;> simp [Pc.running]) hall
    rw [hpc]
    split
    · rename_i h; simp [Pc.bound, Kind.rank_next h]
    · simpa [Pc.bound] using Kind.rank_le _
  | save _ hpc =>
    exact hi.leave (by exact single rfl) rfl rfl rfl rfl rfl (by simp [hpc, Pc.bound])
      (by simp [Pc.running]) (done (by simp [hpc, Pc.running]))
  | probe _ _ hpc =>
    exact hi.leave (by exact single rfl) rfl rfl rfl rfl rfl (by simp [hpc, Pc.bound])
      (by split <;> simp [Pc.running]) (done (by simp [hpc, Pc.running]))
  | bulk _ hpc _ =>
    exact hi.leave (by simp only [List.mem_map]; rintro e ⟨c, -, rfl⟩; rfl) rfl rfl rfl rfl rfl
      (by simp [hpc, Pc.bound]) (by simp [Pc.running]) (done (by simp [hpc, Pc.running]))
  | bulkDone _ hpc =>
    exact hi.leave nil hn rfl rfl rfl rfl (by simp [hpc, Pc.bound]) (by simp [Pc.running])
      (done (by simp [hpc, Pc.running]))
  | mem _ _ _ hpc =>
    exact hi.leave nil hn rfl rfl rfl rfl (by simp [hpc, Pc.bound]) (by simp [Pc.running])
      (done (by simp [hpc, Pc.running]))
  | disk _ _ hpc =>
    exact hi.leave nil hn rfl rfl rfl rfl (by simp [hpc, Pc.bound]) (by simp [Pc.running])
      (done (by simp [hpc, Pc.running]))

end

/-- **The invariant of runs.** Every reachable state satisfies `Inv`. -/
theorem reachable_inv {s : Sys σ} (hr : Reachable f B s) : Inv f s :=
  Reachable.induction (fun st l => Inv.init st l) (fun _ _ hs hi => hi.step hs) hr

/-! ## A worker's loop -/

/-- Worker `j` running `n` whole iterations in a row, drawing `d` each time. -/
def iterations (j : Nat) (d : Draw) : Nat → List Event
  | 0 => []
  | n + 1 => .worker j d :: .worker j d :: iterations j d n

/-- Worker `j` at its `select`, its context not done. -/
def Looping (j : Nat) (s : Sys σ) : Prop :=
  s.halted = false ∧ s.ctxDone = false ∧ ∃ w, s.workers[j]? = some w ∧ w.pc = .select

/-- A worker runs as many iterations as there are nanoseconds left before the
    deadline. They move the clock on by one each and change the backend, the
    workers and the log only: that worker is back at its `select`, the others
    are as they were, and each iteration logs one store call of that worker
    and nothing of any other. -/
theorem Looping.iterate {j : Nat} (d : Draw) : ∀ (n : Nat) {s : Sys σ}, Looping j s →
    (s.now + n : Int) ≤ s.deadline →
    ∃ st ws L, s.run f B (iterations j d n) =
        some { s with now := s.now + n, store := st, workers := ws, log := s.log ++ L } ∧
      (∃ w, ws[j]? = some w ∧ w.pc = .select) ∧ ws.length = s.workers.length ∧
      (∀ j', j' ≠ j → ws[j']? = s.workers[j']?) ∧
      callsBy s.phase j (s.log ++ L) = callsBy s.phase j s.log + n ∧
      ∀ k j', (k ≠ s.phase ∨ j' ≠ j) → callsBy k j' (s.log ++ L) = callsBy k j' s.log
  | 0, s, ⟨_, _, hw⟩, _ => ⟨s.store, s.workers, [], by simp [iterations, Sys.run], hw, rfl, fun _ _ => rfl,
      by simp, fun _ _ _ => by simp⟩
  | n + 1, s, ⟨hh, hd, w, hw, hpc⟩, hn => by
    have hj : j < s.workers.length := (List.getElem?_eq_some_iff.1 hw).1
    let s₁ : Sys σ := { s with now := s.now + 1, workers := s.workers.set j { w with pc := .call } }
    have e₁ : s.step f B (.worker j d) = some s₁ := by
      have : ¬ s.deadline ≤ s.now := by omega
      simp [Sys.step, hh, Sys.workerStep, hw, hpc, hd, this, s₁]
    have hh₁ : s₁.halted = false := hh
    let op := s.phase.op d w.i
    let e : Entry := .call (.worker s.phase j) w.i op (B.exec op s.store).1
    let s₂ : Sys σ :=
      { s₁ with store := (B.exec op s.store).2,
                workers := s₁.workers.set j
                  (Worker.advance f.stride (s.phase.resets (B.exec op s.store).1) { w with pc := .call }),
                log := s.log ++ [e] }
    have e₂ : s₁.step f B (.worker j d) = some s₂ := by
      simp [Sys.step, hh₁, Sys.workerStep, s₁, s₂, hj, op, e]
    have hl₂ : Looping j s₂ :=
      ⟨hh, hd, _, by simp only [s₂, s₁, List.getElem?_set_self, List.length_set, hj]; rfl, rfl⟩
    obtain ⟨st, ws, L, hrun, hw', hlen, hother, hc, ho⟩ :=
      Looping.iterate d n hl₂ (by simp only [s₂, s₁]; push_cast; omega)
    have hlog : s.log ++ e :: L = s₂.log ++ L := by simp [s₂]
    refine ⟨st, ws, e :: L, ?_, hw', by simp [hlen, s₂, s₁], fun j' h => ?_, ?_, fun k j' h => ?_⟩
    · rw [iterations, Sys.run, e₁, Option.some_bind, Sys.run, e₂, Option.some_bind, hrun, hlog]
      simp only [s₂, s₁, Nat.add_assoc, Nat.add_comm 1 n]
    · rw [hother j' h]; simp [s₂, s₁, List.getElem?_set_ne (Ne.symm h)]
    · rw [hlog, hc]; simp [s₂, e, callsBy]; omega
    · rw [hlog, ho k j' h]
      have : ¬ (s.phase = k ∧ j = j') := by rintro ⟨rfl, rfl⟩; simp at h
      simp [s₂, e, callsBy, this]

/-! ## The driver's loop and one iteration -/

/-- `wg.Add(*c)`, `context.WithTimeout` and `start := time.Now()`. -/
theorem start_clock {s : Sys σ} {k : Kind} (hpc : s.pc = .start k) (hc : 0 ≤ f.c) (hc' : f.c % 2 ^ 32 < 2 ^ 31) :
    ∃ s', s.run f B [.driver, .driver] = some s' ∧ s'.pc = .spawn k 0 ∧ s'.workers = [] ∧
      s'.phase = k ∧ s'.wg = f.c % 2 ^ 32 ∧ s'.counts = List.replicate f.c.toNat 0 ∧
      s'.ctxDone = decide (f.duration ≤ 0) ∧ s'.now = s.now ∧ s'.start = s.now ∧
      s'.deadline = s.now + f.duration ∧ s'.log = s.log ++ [.begin k] := by
  have hnc : ¬ (f.c < 0 ∨ 2147483648 ≤ f.c % 4294967296) := by omega
  by_cases hk : k = .getSet <;> simp only [Sys.run, Sys.step, Sys.halted, hpc, hk, reduceCtorEq, decide_False,
    Bool.or_self, Bool.false_eq_true, ↓reduceIte, Sys.driverStep, Int.reducePow, hnc, Bool.or_eq_true,
    decide_eq_true_eq, List.all_eq_true, beq_iff_eq, Option.bind_some, Option.some_bind, or_self,
    Option.some.injEq, exists_eq_left', and_self]

/-- The loop starting the workers `j, …, c - 1`, and its end. -/
theorem spawn_all {k : Kind} : ∀ (m j : Nat) {s : Sys σ}, s.pc = .spawn k j → (j + m : Int) = f.c →
    s.run f B (List.replicate (m + 1) .driver) =
      some { s with workers := s.workers ++ (List.range' j m).map Worker.new, pc := .wait k }
  | 0, j, s, hpc, hj => by simp [Sys.run, Sys.step, Sys.halted, hpc, Sys.driverStep, ← hj]
  | m + 1, j, s, hpc, hj => by
    have hlt : (j : Int) < f.c := by omega
    have h₁ : s.step f B .driver =
        some { s with workers := s.workers ++ [Worker.new j], pc := .spawn k (j + 1) } := by
      simp [Sys.step, Sys.halted, hpc, Sys.driverStep, hlt]
    rw [List.replicate_succ, Sys.run, h₁, Option.some_bind, spawn_all m (j + 1) rfl (by push_cast; omega)]
    simp [List.range'_succ]

/-- One iteration of worker `j` before the deadline: `default` in a
    nanosecond, the store call, back to the `select`. -/
theorem iterate_once {s : Sys σ} {j : Nat} {w : Worker} (hh : s.halted = false) (hd : s.ctxDone = false)
    (hlt : (s.now : Int) < s.deadline) (hw : s.workers[j]? = some w) (hpc : w.pc = .select) (d : Draw) :
    s.run f B [.worker j d, .worker j d] = some { s with
      now := s.now + 1,
      store := (B.exec (s.phase.op d w.i) s.store).2,
      workers := s.workers.set j (w.advance f.stride (s.phase.resets (B.exec (s.phase.op d w.i) s.store).1)),
      log := s.log ++ [.call (.worker s.phase j) w.i (s.phase.op d w.i) (B.exec (s.phase.op d w.i) s.store).1] } := by
  have hj : j < s.workers.length := (List.getElem?_eq_some_iff.1 hw).1
  have hle : ¬ s.deadline ≤ s.now := by omega
  simp only [Sys.halted, Bool.or_eq_false_iff, decide_eq_false_iff_not] at hh
  simp [Sys.run, Sys.step, hh, Sys.halted, Sys.workerStep, hw, hpc, hd, hle, hj, Worker.advance]

end KvBench
