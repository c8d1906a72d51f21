/-
  kvbench formalization — the store calls of a run and the values they pass.

  Every task calls the one shared backend and the model takes its steps one
  at a time, so the store calls of a run form one sequence, the log's
  (`storeCalls`).

  * `set_then_get_miss`: the key `genKey` builds is a leading byte drawn at
    random on every call and the index, so in a run where `testSet` writes
    index 0, `testGet` reads index 0 under another leading byte and misses;
  * `set_values_data`: every value `testSet` and the writer pass to `Set` is
    `data`, 256 bytes whatever `-size` says, while the bulk load's have
    `-size` bytes; `payload_ignores_size` is a run with `-size 100`;
  * `writer_outlives_phase`: in `oneWorkerRun` the writer of `testGetSet`
    makes its `Set` after `testDelete` has begun, and the record's `Setmixed`
    column is `-1`.
-/
import KvBench.Steps

namespace KvBench

/-! ## The calls of a log -/

/-- The store call an entry records, with its reply. -/
def Entry.call? : Entry → Option (Op × Reply)
  | .call _ _ op r => some (op, r)
  | _ => none

/-- The store calls of a log with their replies, in order. -/
def storeCalls (log : List Entry) : List (Op × Reply) := log.filterMap Entry.call?

/-! ## Warm keys -/

/-- `testSet` writes index 0 under leading byte 32; `testGet` then reads
    index 0 under leading byte 33, with no call between, and misses. -/
theorem set_then_get_miss :
    Reachable oneWorkerFlags refStore (oneWorkerAt oneWorkerFlags none 100) ∧
      (oneWorkerAt oneWorkerFlags none 100).log =
        (oneWorkerAt oneWorkerFlags none 100).log.take 5 ++
          .call (.worker .set 0) 0 (.set (genKey 0 0) data) (.err none) ::
          ((oneWorkerAt oneWorkerFlags none 100).log.drop 6).take 2 ++
          .call (.worker .get 0) 0 (.get (genKey 1 0)) (.get [] false none) ::
          (oneWorkerAt oneWorkerFlags none 100).log.drop 9 ∧
      storeCalls (((oneWorkerAt oneWorkerFlags none 100).log.drop 6).take 2) = [] :=
  ⟨⟨∅, none, (oneWorkerRun none).take 100, rfl⟩, rfl, by decide⟩

/-! ## Payloads -/

/-- The values a call passes: `Set`'s value, `PSet`'s values. -/
def Op.values : Op → List Bytes
  | .set _ v => [v]
  | .pset _ vs => vs
  | _ => []

/-- What the benchmark passes as values: `data` to `Set`, values of `-size`
    bytes to `PSet`. -/
def Entry.PayloadOk (f : Flags) : Entry → Prop
  | .call _ _ (.set _ v) _ => v = data
  | .call _ _ (.pset _ vs) _ => ∀ v ∈ vs, v.length = f.size.toNat
  | _ => True

section
variable {σ : Type} {f : Flags} {B : Store σ}

/-- **Payloads.** In every run, every value passed to `Set` (by `testSet` or
    by the writer of `testGetSet`) is `data`, whose 256 bytes do not depend on
    `-size`, and every value the bulk load passes to `PSet` has `-size` bytes. -/
theorem set_values_data {s : Sys σ} (hr : Reachable f B s) : ∀ e ∈ s.log, e.PayloadOk f := by
  refine @Reachable.induction σ f B (fun s => ∀ e ∈ s.log, e.PayloadOk f) (by simp [Sys.init])
    (fun s s' hs h => ?_) _ hr
  have app : ∀ L : List Entry, (∀ e ∈ L, e.PayloadOk f) → ∀ e ∈ s.log ++ L, e.PayloadOk f :=
    fun L hL e he => (List.mem_append.1 he).elim (h e) (hL e)
  have single : ∀ {e : Entry}, e.PayloadOk f → ∀ e' ∈ [e], e'.PayloadOk f :=
    fun h _ h' => List.mem_singleton.1 h' ▸ h
  cases hs with
  | exit | probe | save => exact app _ (by exact single trivial)
  | call => exact app _ (by exact single (by cases s.phase <;> first | exact rfl | exact trivial))
  | wcall => exact app _ (by exact single rfl)
  | bulk _ _ hb =>
    refine app _ fun e he => ?_
    obtain ⟨c, hc, rfl⟩ := List.mem_map.1 he
    exact (testBatchWriteFixCount_replay B f.size _ hb).2 c hc
  | start => dsimp only; split <;> exact app [.begin _] (single trivial)
  | _ => exact h

end

/-- `-size 100`. -/
def sizeFlags : Flags := { oneWorkerFlags with size := 100, isInt := by decide }

/-- With `-size 100`, the `Set`s of `testSet` and of the writer pass `data`,
    of 256 bytes, as every `Set` of the run does. -/
theorem payload_ignores_size :
    sizeFlags.size = 100 ∧ (∀ e ∈ (oneWorkerAt sizeFlags none 100).log, e.PayloadOk sizeFlags) ∧
      (storeCalls (oneWorkerAt sizeFlags none 100).log).flatMap (·.1.values) = [data, data] ∧
      data.length = 256 :=
  ⟨rfl, set_values_data (B := refStore) ⟨∅, none, (oneWorkerRun none).take 100, rfl⟩, rfl,
    List.length_replicate 256 0⟩

/-! ## The writer of `testGetSet` -/

/-- In `oneWorkerRun` the driver begins `testDelete` before the writer's
    `Set`; the writer then counts it, but the record shows `Setmixed` as `-1`:
    `setCount` was read as `0`. -/
theorem writer_outlives_phase :
    ((oneWorkerAt oneWorkerFlags none 100).log.drop 13).take 2 =
        [.begin .del, .call .writer 0 (.set (genKey 0 0) data) (.err none)] ∧
      (oneWorkerAt oneWorkerFlags none 100).setCount = 1 ∧
      ("Setmixed op/s", -1) ∈ (oneWorkerAt oneWorkerFlags none 100).record.headers.tail.zip
        (oneWorkerAt oneWorkerFlags none 100).record.values :=
  ⟨rfl, by decide, by decide⟩

end KvBench
