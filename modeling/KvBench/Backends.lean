/-
  kvbench formalization — what the benchmark reads of its backend.

  Of the replies of the store, `main` reads the error of each bulk-load
  `PSet` (an error panics), whether the first scan of `testKeys` reports
  `ErrNotSupported`, the found flag of `testGet`'s `Get`s and the error of
  `testKeys`' scans; the last two only send a worker back to its index, and
  the index only chooses the next key.

  * `Sys.blind`: a state without its backend, its log and its workers' key
    indices: where every task is, the clock, `counts`, `setCount`, the record
    and the save file; `Quiet B`: `PSet` never fails and `Keys` never reports
    `ErrNotSupported`;
  * `step_alike`: on two quiet backends, every event takes states alike but
    for those to states alike but for those, or is refused by both;
  * `record_ignores_backend`: a schedule of `main` gives the same record,
    counts and save file on every quiet backend, from any contents: what the
    benchmark saves about a backend depends on the schedule alone.
-/
import KvBench.Steps

namespace KvBench

/-- A worker without the index it passes to `genKey`. -/
def Worker.blind (w : Worker) : Worker := { w with i := 0 }

/-- A state without its backend, its log and its workers' key indices. -/
def Sys.blind {σ : Type} (s : Sys σ) : Sys Unit :=
  { s with store := (), log := [], workers := s.workers.map Worker.blind }

/-- A backend whose `PSet` never fails and whose `Keys` never reports
    `ErrNotSupported`. -/
structure Quiet {σ : Type} (B : Store σ) : Prop where
  pset : ∀ ks vs st, (B.pset ks vs st).1 = none
  keys : ∀ p n w st, (B.keys p n w st).2.2 ≠ some .notSupported

theorem quiet_refStore : Quiet refStore :=
  ⟨fun _ _ _ => rfl, fun _ _ _ _ => by simp [refStore]⟩

variable {σ₁ σ₂ : Type} {B₁ : Store σ₁} {B₂ : Store σ₂} (f : Flags)

/-- On quiet backends the bulk load panics exactly when building a page does. -/
theorem writePages_quiet (h₁ : Quiet B₁) (h₂ : Quiet B₂) (size : Int) (draws : Nat → PageDraws) :
    ∀ (n i : Nat) (st₁ : σ₁) (st₂ : σ₂),
      (writePages B₁ size draws i n st₁).isSome = (writePages B₂ size draws i n st₂).isSome
  | 0, _, _, _ => rfl
  | n + 1, i, st₁, st₂ => by
    cases hp : page size (pageLen i) (draws i) with
    | none => simp [writePages, hp]
    | some p =>
      have := writePages_quiet h₁ h₂ size draws n (i + 1) (B₁.pset p.1 p.2 st₁).2
        (B₂.pset p.1 p.2 st₂).2
      simp only [writePages, hp, h₁.pset, h₂.pset, Option.bind_eq_bind, Option.some_bind]
      cases h₁' : writePages B₁ size draws (i + 1) n (B₁.pset p.1 p.2 st₁).2 <;>
        cases h₂' : writePages B₂ size draws (i + 1) n (B₂.pset p.1 p.2 st₂).2 <;> simp_all

/-- **One step.** From states alike but for the backend, the log and the key
    indices, an event on two quiet backends is refused by both, or leads to
    states alike but for those. -/
theorem step_alike (h₁ : Quiet B₁) (h₂ : Quiet B₂) {s₁ : Sys σ₁} {s₂ : Sys σ₂}
    (h : s₁.blind = s₂.blind) (e : Event) :
    (s₁.step f B₁ e).map Sys.blind = (s₂.step f B₂ e).map Sys.blind := by
  obtain ⟨pc, st₁, now, start, phase, deadline, ctxDone, ws₁, counts, wg, writer, chClosed, setCount,
    record, ledger, log₁⟩ := s₁
  obtain ⟨pc', st₂, now', start', phase', deadline', ctxDone', ws₂, counts', wg', writer', chClosed',
    setCount', record', ledger', log₂⟩ := s₂
  simp only [Sys.blind, Sys.mk.injEq] at h
  obtain ⟨rfl, -, rfl, rfl, rfl, rfl, rfl, hws, rfl, rfl, rfl, rfl, rfl, rfl, rfl, -⟩ := h
  simp only [Sys.step, Sys.halted]
  split
  · rfl
  cases e <;> dsimp only
  case elapse => simp [Sys.blind, hws]
  case fire => simp only [Sys.fire]; split <;> simp [Sys.blind, hws]
  case mem => split <;> simp [Sys.blind, hws]
  case disk => split <;> simp [Sys.blind, hws]
  case probe =>
    simp only [Sys.probeStep]
    split
    · rfl
    · simp [Sys.blind, hws, Store.exec, probeOp, Reply.notSupported, h₁.keys, h₂.keys]
  case writer d =>
    simp only [Sys.writerStep]
    cases writer with
    | none => rfl
    | some w => cases hw : w.pc <;> simp [Sys.blind, hws, hw]
  case bulk draws =>
    simp only [Sys.bulkStep]
    split
    · rfl
    have := writePages_quiet h₁ h₂ f.size draws (pageCount f.setCount).toNat 0 st₁ st₂
    simp only [testBatchWriteFixCount]
    cases hb₁ : writePages B₁ f.size draws 0 (pageCount f.setCount).toNat st₁ <;>
      cases hb₂ : writePages B₂ f.size draws 0 (pageCount f.setCount).toNat st₂ <;>
      simp_all [Sys.blind]
  case worker j d =>
    have hj : (ws₁[j]?).map Worker.blind = (ws₂[j]?).map Worker.blind := by
      rw [← List.getElem?_map, ← List.getElem?_map, hws]
    simp only [Sys.workerStep]
    cases hw₁ : ws₁[j]? <;> cases hw₂ : ws₂[j]? <;> simp only [hw₁, hw₂, Option.map] at hj
    · rfl
    · cases hj
    · cases hj
    rename_i w₁ w₂
    obtain ⟨index, i₁, count, pc₁⟩ := w₁
    obtain ⟨index', i₂, count', pc₂⟩ := w₂
    simp only [Worker.blind, Option.some.injEq, Worker.mk.injEq] at hj
    obtain ⟨rfl, -, rfl, rfl⟩ := hj
    cases pc₁
    · (repeat' split) <;> simp [Sys.blind, hws, List.map_set, Worker.blind]
    · simp [Sys.blind, hws, List.map_set, Worker.blind, Worker.advance]
    · rfl
  case driver =>
    have hall : ws₁.all (·.pc == .done) = ws₂.all (·.pc == .done) := by
      simpa [List.all_map, Function.comp_def, Worker.blind] using congrArg (List.all · (·.pc == .done)) hws
    cases pc <;> simp only [Sys.driverStep, hall] <;> (repeat' split) <;> simp_all [Sys.blind]

/-- The same schedule on two quiet backends keeps the states alike. -/
theorem run_alike (h₁ : Quiet B₁) (h₂ : Quiet B₂) :
    ∀ (es : List Event) {s₁ : Sys σ₁} {s₂ : Sys σ₂}, s₁.blind = s₂.blind →
      (s₁.run f B₁ es).map Sys.blind = (s₂.run f B₂ es).map Sys.blind
  | [], _, _, h => by simp [Sys.run, h]
  | e :: es, s₁, s₂, h => by
    have hs := step_alike f h₁ h₂ h e
    simp only [Sys.run]
    cases hs₁ : s₁.step f B₁ e <;> cases hs₂ : s₂.step f B₂ e <;> simp only [hs₁, hs₂] at hs
    · rfl
    · cases hs
    · cases hs
    · exact run_alike h₁ h₂ es (Option.some.inj hs)

/-- **The record ignores the backend.** Whatever the two backends hold at the
    start, a schedule of `main` on two quiet backends is refused by both or
    by neither, and leaves both runs with every task at the same place, the
    same clock, `counts`, `setCount`, record and save file: only the
    backends, the logs of their replies and the workers' key indices
    differ. -/
theorem record_ignores_backend (h₁ : Quiet B₁) (h₂ : Quiet B₂) (st₁ : σ₁) (st₂ : σ₂) (l : Ledger)
    (es : List Event) :
    ((Sys.init f st₁ l).run f B₁ es).map Sys.blind = ((Sys.init f st₂ l).run f B₂ es).map Sys.blind :=
  run_alike f h₁ h₂ es rfl

/-- `oneWorkerRun` on an empty map and on one holding `[2]` under `[1]`. -/
theorem record_same_on_filled_store :
    Quiet refStore ∧
      ((Sys.init oneWorkerFlags ∅ none).run oneWorkerFlags refStore (oneWorkerRun none)).map Sys.blind =
        ((Sys.init oneWorkerFlags ((∅ : KV).insert [1] [2]) none).run oneWorkerFlags refStore
          (oneWorkerRun none)).map Sys.blind :=
  ⟨quiet_refStore, record_ignores_backend oneWorkerFlags quiet_refStore quiet_refStore _ _ _ _⟩

end KvBench
