/-
  kvbench formalization — where each task's entries stand in the log.

  The driver begins the phases one after another (`phases_in_order`); the
  workers of a phase are started after its `begin` and have all left their
  loop when `wg.Wait()` returns, while the writer of `testGetSet` is started
  with the phase and never joined.

  * `EveryEntry P log`: every entry satisfies `P` with the phases begun before
    it; `EveryEntry.append` checks only the entries a step appends;
  * `Placed`: a worker's call or `counts` write of phase `k` stands where `k`
    is the last phase begun, a `Set` of the writer after `testGetSet` began;
    `worker_calls_in_phase`: so it is in every reachable log;
  * `WriterOk`, `writer_counts_sets`: the writer calls `Set` at the indices
    `0, 1, 2, …` in order, and `setCount` counts the calls that have reached
    `setCount++`: all of them, or all but the last.
-/
import KvBench.Phases

namespace KvBench

/-! ## Properties of every entry of a log -/

/-- Every entry of `log` satisfies `P` with the phases begun before it. -/
def EveryEntry (P : List Kind → Entry → Prop) (log : List Entry) : Prop :=
  ∀ l₁ e l₂, log = l₁ ++ e :: l₂ → P (begins l₁) e

section
variable {P : List Kind → Entry → Prop} {log L : List Entry}

theorem EveryEntry.append (h : EveryEntry P log) (hL : EveryEntry (fun b => P (begins log ++ b)) L) :
    EveryEntry P (log ++ L) := by
  intro l₁ e l₂ heq
  rcases List.append_eq_append_iff.1 heq with ⟨c, rfl, hc⟩ | ⟨c, rfl, hc⟩
  · rw [begins_append]; exact hL c e l₂ hc
  · cases c with
    | nil => simpa using hL [] e l₂ (by simpa using hc.symm)
    | cons x c =>
      rw [List.cons_append, List.cons.injEq] at hc
      obtain ⟨rfl, -⟩ := hc
      exact h l₁ e c rfl

theorem EveryEntry.append_single {e : Entry} (h : EveryEntry P log) (he : P (begins log) e) :
    EveryEntry P (log ++ [e]) :=
  h.append fun l₁ e' l₂ heq => by
    obtain ⟨rfl, rfl, rfl⟩ : l₁ = [] ∧ e' = e ∧ l₂ = [] := by
      rcases l₁ with _ | ⟨x, l₁⟩ <;> simp_all
    simpa using he

theorem EveryEntry.append_of_forall (h : EveryEntry P log) (hL : ∀ e ∈ L, ∀ b, P b e) :
    EveryEntry P (log ++ L) :=
  h.append fun _ e _ heq => hL e (by simp [heq]) _

end

/-! ## Where the tasks' entries stand -/

/-- Where a task's entry may stand, given the phases begun before it: a call
    or `counts` write of a worker of phase `k` while `k` is the last phase
    begun, a call of the writer once `testGetSet` has begun. -/
def Placed (begun : List Kind) : Entry → Prop
  | .call (.worker k _) _ _ _ => begun.getLast? = some k
  | .slot k _ _ => begun.getLast? = some k
  | .call .writer _ _ _ => Kind.getSet ∈ begun
  | _ => True

variable {σ : Type} {f : Flags} {B : Store σ}

section
variable {s s' : Sys σ}

/-- Every `Step` appends only placed entries, given where the driver is. -/
theorem placed_step (hs : Step f B s s') (hi : Inv f s) (hst : Staged s) (h : EveryEntry Placed s.log) :
    EveryEntry Placed s'.log := by
  have worker : ∀ {j : Nat} {w : Worker}, s.workers[j]? = some w → w.pc ≠ .done →
      (begins s.log).getLast? = some s.phase := fun hw hne =>
    hst.last _ (hi.active hs.not_panicked (List.getElem?_mem hw) hne).1
  cases hs with
  | exit _ hw hpc => exact h.append_single (worker hw (by simp [hpc]))
  | call _ _ hw hpc => exact h.append_single (worker hw (by simp [hpc]))
  | wcall _ _ hw => exact h.append_single (hst.writer.1 (by simp [hw]))
  | start => dsimp only; split <;> exact h.append_single trivial
  | probe | save => exact h.append_single trivial
  | bulk => exact h.append_of_forall fun e he _ => by obtain ⟨c, -, rfl⟩ := List.mem_map.1 he; trivial
  | _ => exact h

end

/-- Every reachable log is placed. -/
theorem reachable_placed {s : Sys σ} (hr : Reachable f B s) : EveryEntry Placed s.log :=
  (Reachable.induction (P := fun s => Inv f s ∧ Staged s ∧ EveryEntry Placed s.log)
    (fun _ _ => ⟨Inv.init _ _, Staged.init _ _, fun _ _ _ h => by simp [Sys.init] at h⟩)
    (fun _ _ hs ⟨hi, hst, h⟩ => ⟨hi.step hs, hst.step hs, placed_step hs hi hst h⟩) hr).2.2

/-- **Calls stay in their phase.** In every reachable state, every store call
    and `counts` write of a worker of phase `k` stands after the driver began
    `k` and before it began any later phase, and every `Set` of the writer
    after it began `testGetSet`. -/
theorem worker_calls_in_phase {s : Sys σ} (hr : Reachable f B s) {l₁ l₂ : List Entry} {e : Entry}
    (hlog : s.log = l₁ ++ e :: l₂) : Placed (begins l₁) e :=
  reachable_placed hr l₁ e l₂ hlog

/-- In `oneWorkerRun`, the sixteenth entry is a call of `testDelete`'s worker. -/
theorem del_call_in_phase :
    Reachable oneWorkerFlags refStore (oneWorkerAt oneWorkerFlags none 66) ∧
      ∃ e l₂, (oneWorkerAt oneWorkerFlags none 66).log =
          (oneWorkerAt oneWorkerFlags none 66).log.take 15 ++ e :: l₂ ∧
        e.workerPhase = some .del ∧ Placed (begins ((oneWorkerAt oneWorkerFlags none 66).log.take 15)) e :=
  have hr := oneWorkerRun_exits.1
  have hlen : 15 < (oneWorkerAt oneWorkerFlags none 66).log.length := by decide
  have hlog := (List.take_append_drop 15 _).symm.trans (congrArg _ (List.drop_eq_getElem_cons hlen))
  have he : ∀ h, ((oneWorkerAt oneWorkerFlags none 66).log.get ⟨15, h⟩).workerPhase = some .del := by
    decide
  ⟨hr, _, _, hlog, he hlen, worker_calls_in_phase hr hlog⟩

/-! ## The writer of `testGetSet` -/

/-- The index of a `Set` of the writer. -/
def Entry.writerIndex : Entry → Option UInt64
  | .call .writer i _ _ => some i
  | _ => none

/-- The indices of the writer's `Set`s, in the order of the log. -/
def writerIndices (log : List Entry) : List UInt64 := log.filterMap Entry.writerIndex

@[simp] theorem writerIndices_append (l₁ l₂ : List Entry) :
    writerIndices (l₁ ++ l₂) = writerIndices l₁ ++ writerIndices l₂ :=
  List.filterMap_append _ _ _

@[simp] theorem writerIndices_writer (i : UInt64) (op : Op) (r : Reply) :
    writerIndices [.call .writer i op r] = [i] := rfl

@[simp] theorem writerIndices_worker (k : Kind) (j : Nat) (i : UInt64) (op : Op) (r : Reply) :
    writerIndices [.call (.worker k j) i op r] = [] := rfl

@[simp] theorem writerIndices_driver (i : UInt64) (op : Op) (r : Reply) :
    writerIndices [.call .driver i op r] = [] := rfl

@[simp] theorem writerIndices_begin (k : Kind) : writerIndices [.begin k] = [] := rfl

@[simp] theorem writerIndices_slot (k : Kind) (j x : Nat) : writerIndices [.slot k j x] = [] := rfl

@[simp] theorem writerIndices_bulk (calls : List (List Bytes × List Bytes)) :
    writerIndices (calls.map fun c => .call .driver 0 (.pset c.1 c.2) (.err none)) = [] := by
  simp [writerIndices, List.filterMap_map, Entry.writerIndex]

/-- The writer's `Set`s: none before it starts; at `0, 1, …, n - 1` and one
    more at `n` while it has not reached `setCount++`, with `i = setCount = n`. -/
structure WriterOk (s : Sys σ) : Prop where
  none : s.writer = none → writerIndices s.log = []
  some : ∀ w, s.writer = some w → ∃ n,
    writerIndices s.log = (List.range (n + if w.pc = .count then 1 else 0)).map UInt64.ofNat ∧
      w.i = UInt64.ofNat n ∧ s.setCount = UInt64.ofNat n

theorem UInt64.ofNat_succ (n : Nat) : UInt64.ofNat n + 1 = UInt64.ofNat (n + 1) := by
  apply UInt64.toNat.inj
  simp [UInt64.toNat_add, UInt64.toNat_ofNat', Nat.add_mod, UInt64.size]

section
variable {s s' : Sys σ}

/-- A step that leaves the writer, `setCount` and the writer's entries alone. -/
theorem WriterOk.frame (h : WriterOk s) (hw : s'.writer = s.writer) (hc : s'.setCount = s.setCount)
    (hl : writerIndices s'.log = writerIndices s.log) : WriterOk s' :=
  ⟨fun h' => hl ▸ h.none (hw ▸ h'), fun w h' => hc ▸ hl ▸ h.some w (hw ▸ h')⟩

/-- `testGetSet` starts its writer before any other phase has. -/
theorem Staged.writer_eq_none (h : Staged s) (hpc : s.pc = .start .getSet) : s.writer = none := by
  obtain ⟨n, hn, hnb⟩ := h.begun
  obtain rfl : n = 3 := by simpa [hpc, Pc.bound, Kind.rank] using hnb (by simp [hpc])
  have : Kind.getSet ∉ begins s.log := by rw [hn]; cases keysSkipped s.log <;> decide
  simpa using mt h.writer.1 this

/-- Every `Step` keeps `WriterOk`, given where the driver is. -/
theorem WriterOk.step (hs : Step f B s s') (hst : Staged s) (h : WriterOk s) : WriterOk s' := by
  cases hs with
  | wselect _ hw hpc =>
    obtain ⟨n, hn, hi, hc⟩ := h.some _ hw
    refine ⟨nofun, fun w' hw' => ⟨n, ?_, ?_, hc⟩⟩ <;> cases hw'
    · split <;> simpa [hpc] using hn
    · exact hi
  | wcall _ _ hw hpc =>
    obtain ⟨n, hn, hi, hc⟩ := h.some _ hw
    refine ⟨nofun, fun w' hw' => ?_⟩
    cases hw'
    exact ⟨n, by simp [hn, hpc, hi, List.range_succ], hi, hc⟩
  | wcount _ hw hpc =>
    obtain ⟨n, hn, hi, hc⟩ := h.some _ hw
    refine ⟨nofun, fun w' hw' => ⟨n + 1, ?_, ?_, ?_⟩⟩ <;> cases hw'
    · simpa [hpc] using hn
    all_goals simp [hi, hc, UInt64.ofNat_succ]
  | start _ hpc =>
    split
    · rename_i hk
      subst hk
      have h0 := h.none (hst.writer_eq_none hpc)
      exact ⟨nofun, fun w hw => by cases hw; exact ⟨0, by simp [h0], rfl, rfl⟩⟩
    · exact h.frame rfl rfl (by simp)
  | exit | call | probe | save => exact h.frame rfl rfl (by simp)
  | bulk => exact h.frame rfl rfl (by simp)
  | _ => exact h.frame rfl rfl rfl

end

/-- **The writer's count.** In every reachable state, the writer of
    `testGetSet` has called `Set` at the indices `0, 1, 2, …` in order and
    nowhere else, none before it started; `setCount`, which the driver reads
    for the `Setmixed` column, is the number of those calls that have reached
    `setCount++`: all of them, or all but the last while the writer is between
    its `Set` and `setCount++`. -/
theorem writer_counts_sets {s : Sys σ} (hr : Reachable f B s) :
    (s.writer = none → writerIndices s.log = []) ∧
    ∀ w, s.writer = some w → ∃ n,
      writerIndices s.log = (List.range (n + if w.pc = .count then 1 else 0)).map UInt64.ofNat ∧
        s.setCount = UInt64.ofNat n := by
  have h : Staged s ∧ WriterOk s :=
    Reachable.induction (P := fun s => Staged s ∧ WriterOk s)
      (fun _ _ => ⟨Staged.init _ _, fun _ => rfl, fun _ h => by simp [Sys.init] at h⟩)
      (fun _ _ hs ⟨hst, h⟩ => ⟨hst.step hs, h.step hs hst⟩) hr
  exact ⟨h.2.none, fun w hw => (h.2.some w hw).imp fun _ hn => ⟨hn.1, hn.2.2⟩⟩

/-- In `oneWorkerRun`, after `testDelete` has begun, the writer has made its
    first `Set` and not yet reached `setCount++`. -/
theorem writer_mid_set :
    Reachable oneWorkerFlags refStore (oneWorkerAt oneWorkerFlags none 53) ∧
      (oneWorkerAt oneWorkerFlags none 53).writer = some ⟨0, .count⟩ ∧
      ∃ n, writerIndices (oneWorkerAt oneWorkerFlags none 53).log = (List.range (n + 1)).map UInt64.ofNat ∧
        (oneWorkerAt oneWorkerFlags none 53).setCount = UInt64.ofNat n :=
  have hr : Reachable oneWorkerFlags refStore (oneWorkerAt oneWorkerFlags none 53) :=
    ⟨∅, none, (oneWorkerRun none).take 53, rfl⟩
  have hw : (oneWorkerAt oneWorkerFlags none 53).writer = some ⟨0, .count⟩ := by decide
  ⟨hr, hw, by simpa using (writer_counts_sets hr).2 _ hw⟩

end KvBench
