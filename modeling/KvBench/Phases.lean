/-
  kvbench formalization — `main`'s phases over whole runs.

  `main` runs `testKeys`, `testSet`, `testGet`, `testGetSet` and `testDelete`
  one after another, after the bulk load and the memory and disk columns; a
  phase's workers call the store only while it runs, except the writer of
  `testGetSet`.

  * `begins log`: the phases the driver has started, read off the log;
    `keysSkipped log`: whether the reply to `testKeys`' first scan, in the
    log, is `ErrNotSupported`;
  * `Staged`: the phases begun are `Kind.order` as far as the driver has
    come, with `testKeys` left out when `keysSkipped`; the phase whose
    workers run is the last one begun; the record holds the headers of
    everything measured so far (`Pc.headers`); the writer exists once
    `testGetSet` has begun;
  * `phases_in_order`: the phases of every run are begun in `main`'s order,
    each once, `testKeys` left out exactly when its first scan reported
    `ErrNotSupported`; a run that exits has begun them all;
  * `record_headers_at_exit`: the columns of the record of a run that exits,
    `exitHeaders`, with or without the disk column.
-/
import KvBench.Pool

namespace KvBench

/-! ## Phases and their columns -/

/-- `main`'s time-bounded phases in its order. -/
def Kind.order : List Kind := [.keys, .set, .get, .getSet, .del]

theorem Kind.order_take_succ (k : Kind) :
    Kind.order.take (k.rank + 1) = Kind.order.take k.rank ++ [k] := by
  cases k <;> rfl

/-- The headers of the columns phase `k` appends. -/
def Kind.headers : Kind → List String
  | .keys => ["Keys op/s"]
  | .set => ["Set op/s"]
  | .get => ["Get op/s"]
  | .getSet => ["Setmixed op/s", "Getmixed op/s"]
  | .del => ["Del op/s"]

theorem opColumns_headers {header : String} {n c d : Int} {cols : List (String × Int)}
    (h : opColumns header n c d = some cols) : cols.map Prod.fst = [header] := by
  cases hr : rate n d <;> cases hm : mean d n c <;> simp [opColumns, hr, hm] at h
  subst h; rfl

theorem getSetColumns_headers {sc : UInt64} {n c d : Int} {cols : List (String × Int)}
    (h : getSetColumns sc n c d = some cols) :
    cols.map Prod.fst = ["Setmixed op/s", "Getmixed op/s"] := by
  by_cases h0 : sc = 0 <;> simp only [getSetColumns, h0, ite_true, ite_false, Option.pure_def,
    Option.bind_eq_bind, Option.some_bind, Option.bind_eq_some, Option.some.injEq] at h
  · obtain ⟨g, hg, rfl⟩ := h
    simp [opColumns_headers hg]
  · obtain ⟨_, _, _, _, g, hg, rfl⟩ := h
    simp [opColumns_headers hg]

/-- What a measurement appends has the headers of its phase. -/
theorem Sys.columns_headers {f : Flags} {k : Kind} {n d : Int} {sc : UInt64}
    {cols : List (String × Int)} (h : Sys.columns f k n d sc = some cols) :
    cols.map Prod.fst = k.headers := by
  cases k
  case getSet => exact getSetColumns_headers h
  all_goals exact opColumns_headers h

/-! ## The phases a log has begun -/

/-- The phase an entry begins, if it is a `begin`. -/
def Entry.begun : Entry → Option Kind
  | .begin k => some k
  | _ => none

/-- The phases the driver has begun, in the order of the log. -/
def begins (log : List Entry) : List Kind := log.filterMap Entry.begun

@[simp] theorem begins_append (l₁ l₂ : List Entry) : begins (l₁ ++ l₂) = begins l₁ ++ begins l₂ :=
  List.filterMap_append _ _ _

@[simp] theorem begins_nil : begins [] = [] := rfl

theorem begins_singleton (e : Entry) : begins [e] = e.begun.toList := by
  cases h : e.begun <;> simp [begins, h]

@[simp] theorem begins_begin (k : Kind) : begins [.begin k] = [k] := rfl

@[simp] theorem begins_call (t : Task) (i : UInt64) (op : Op) (r : Reply) :
    begins [.call t i op r] = [] := rfl

@[simp] theorem begins_slot (k : Kind) (j x : Nat) : begins [.slot k j x] = [] := rfl

@[simp] theorem begins_bulk (calls : List (List Bytes × List Bytes)) :
    begins (calls.map fun c => .call .driver 0 (.pset c.1 c.2) (.err none)) = [] := by
  simp [begins, List.filterMap_map, Entry.begun]

/-! ## The reply to `testKeys`' first scan -/

/-- Whether an entry is a `Keys` call of the driver, `testKeys`' first scan,
    answered with `ErrNotSupported`. -/
def Entry.skipsKeys : Entry → Bool
  | .call .driver _ (.keys _ _ _) r => r.notSupported
  | _ => false

/-- Whether the log records `testKeys`' first scan reporting `ErrNotSupported`. -/
def keysSkipped (log : List Entry) : Bool := log.any Entry.skipsKeys

@[simp] theorem keysSkipped_append (l₁ l₂ : List Entry) :
    keysSkipped (l₁ ++ l₂) = (keysSkipped l₁ || keysSkipped l₂) :=
  List.any_append

@[simp] theorem keysSkipped_singleton (e : Entry) : keysSkipped [e] = e.skipsKeys := by
  simp [keysSkipped]

@[simp] theorem keysSkipped_bulk (calls : List (List Bytes × List Bytes)) :
    keysSkipped (calls.map fun c => .call .driver 0 (.pset c.1 c.2) (.err none)) = false := by
  refine List.any_eq_false.2 fun e he => ?_
  obtain ⟨c, -, rfl⟩ := List.mem_map.1 he
  exact Bool.false_ne_true

/-! ## Where the driver is -/

/-- How many phases of `Kind.order` have appended their columns at `pc`. -/
def Pc.measured : Pc → Nat
  | .bulk | .bulkDone | .mem | .disk | .probe => 0
  | .start k | .clock k | .spawn k _ | .wait k | .measure k => k.rank
  | .closeCh => Kind.getSet.rank
  | .save | .exited | .panicked => Kind.order.length

/-- The record's headers at `pc`: `name`, the bulk load's column, the memory
    columns, those `showDiskUsage` appended (`disk`), then each measured
    phase's. -/
def Pc.headers (disk : List String) : Pc → List String
  | .bulk | .bulkDone => ["name"]
  | .mem => ["name", "batch write cost(s)"]
  | .disk => ["name", "batch write cost(s)", "MemUsage(MiB)", "HeapInuse(MiB)"]
  | pc => ["name", "batch write cost(s)", "MemUsage(MiB)", "HeapInuse(MiB)"] ++ disk ++
      (Kind.order.take pc.measured).flatMap Kind.headers

/-- What `showDiskUsage` may append: nothing, or the disk column. -/
def DiskHeaders (disk : List String) : Prop := disk = [] ∨ disk = ["DiskUsage(MiB)"]

variable {σ : Type} {f : Flags} {B : Store σ}

/-- Where the driver is in `main`, as the log and the record show it. -/
structure Staged (s : Sys σ) : Prop where
  /-- the phases begun: `Kind.order` up to `pc`, less `testKeys` if it was skipped -/
  begun : ∃ n, begins s.log = (Kind.order.take n).drop (keysSkipped s.log).toNat ∧
    (s.pc ≠ .panicked → n = s.pc.bound)
  /-- before `testKeys` no scan has reported `ErrNotSupported` -/
  probed : s.pc.bound = 0 → keysSkipped s.log = false
  /-- the phase whose workers run is the last one begun -/
  last : ∀ k, s.pc.running = some k → (begins s.log).getLast? = some k
  /-- the headers of everything measured so far -/
  headers : s.pc ≠ .panicked → ∃ disk, DiskHeaders disk ∧ s.record.headers = s.pc.headers disk
  /-- the writer exists once `testGetSet` has begun -/
  writer : s.writer.isSome ↔ Kind.getSet ∈ begins s.log

section
variable {s s' : Sys σ}

theorem Staged.init (st : σ) (l : Ledger) : Staged (Sys.init f st l) :=
  ⟨⟨0, rfl, fun _ => rfl⟩, fun _ => rfl, nofun, fun _ => ⟨[], .inl rfl, rfl⟩, by simp [Sys.init, begins]⟩

/-- A step that begins no phase and keeps the writer, the record's headers and
    the driver's place, up to what `pc` tells. -/
theorem Staged.of_move (h : Staged s) (hlog : begins s'.log = begins s.log)
    (hskip : keysSkipped s'.log = keysSkipped s.log) (hw : s'.writer.isSome = s.writer.isSome)
    (hb : s'.pc ≠ .panicked → s.pc ≠ .panicked ∧ s'.pc.bound = s.pc.bound)
    (hrun : ∀ k, s'.pc.running = some k → s.pc.running = some k)
    (hh : s'.pc ≠ .panicked → ∀ disk, s.record.headers = s.pc.headers disk →
      s'.record.headers = s'.pc.headers disk) : Staged s' := by
  obtain ⟨n, hn, hnb⟩ := h.begun
  refine ⟨⟨n, by rw [hlog, hskip]; exact hn, fun hp => (hb hp).2 ▸ hnb (hb hp).1⟩, fun h0 => ?_,
    fun k hk => hlog ▸ h.last k (hrun k hk), fun hp => ?_, by rw [hw, hlog]; exact h.writer⟩
  · by_cases hp : s'.pc = .panicked
    · simp [hp, Pc.bound] at h0
    · rw [hskip]; exact h.probed ((hb hp).2 ▸ h0)
  · obtain ⟨disk, hd, hh'⟩ := h.headers (hb hp).1
    exact ⟨disk, hd, hh hp disk hh'⟩

/-- A step that keeps the driver's place and the record. -/
theorem Staged.frame (h : Staged s) (hlog : begins s'.log = begins s.log)
    (hskip : keysSkipped s'.log = keysSkipped s.log) (hw : s'.writer.isSome = s.writer.isSome)
    (hpc : s'.pc = s.pc) (hrec : s'.record = s.record) : Staged s' :=
  h.of_move hlog hskip hw (fun hp => ⟨hpc ▸ hp, congrArg Pc.bound hpc⟩) (fun _ hk => hpc ▸ hk)
    (fun _ _ hh => by rw [hpc, hrec]; exact hh)

theorem Staged.panic (h : Staged s) : Staged { s with pc := .panicked } :=
  h.of_move rfl rfl rfl (fun hp => absurd rfl hp) (fun _ => nofun) (fun hp => absurd rfl hp)

/-- Beginning phase `k` after the phases before it, `testKeys` skipped only
    if `k` comes after it. -/
theorem Kind.order_begin (k : Kind) (skip : Bool) (hk : k.rank = 0 → skip = false) :
    (Kind.order.take k.rank).drop skip.toNat ++ [k] = (Kind.order.take (k.rank + 1)).drop skip.toNat := by
  cases k <;> cases skip <;> first | rfl | simp [Kind.rank] at hk

/-- `wg.Add(*c)` and the phase's context: the phase is begun, and with
    `testGetSet` its writer. -/
theorem Staged.of_start (h : Staged s) {k : Kind} (hpc : s.pc = .start k) (s₁ : Sys σ)
    (hlog : s₁.log = s.log) (hrec : s₁.record = s.record)
    (hw : s₁.writer.isSome ↔ s.writer.isSome ∨ k = .getSet) :
    Staged { s₁ with pc := .clock k, phase := k, wg := f.c % 2 ^ 32, workers := [],
                     counts := List.replicate f.c.toNat 0, deadline := s₁.now + f.duration,
                     ctxDone := decide (f.duration ≤ 0), log := s₁.log ++ [.begin k] } := by
  obtain ⟨n, hn, hnb⟩ := h.begun
  obtain rfl : n = k.rank := by simpa [hpc, Pc.bound] using hnb (by simp [hpc])
  have hskip := Kind.order_begin k (keysSkipped s.log) fun h0 => h.probed (by simpa [hpc, Pc.bound] using h0)
  obtain ⟨disk, hd, hh⟩ := h.headers (by simp [hpc])
  have hk : keysSkipped (s₁.log ++ [.begin k]) = keysSkipped s.log := by simp [hlog, Entry.skipsKeys]
  refine ⟨⟨k.rank + 1, by rw [hk, begins_append, hlog, hn, begins_begin, hskip], fun _ => rfl⟩,
    fun h0 => by simp [Pc.bound] at h0, fun k' hk => ?_, fun _ => ⟨disk, hd, ?_⟩, ?_⟩
  · simp only [Pc.running, Option.some.injEq] at hk; simp [hk]
  · rw [hrec, hh, hpc]; rfl
  · rw [hw, h.writer]; simp [hlog, eq_comm]

/-- `testKeys`' first scan: on `ErrNotSupported`, its column and on to `testSet`. -/
theorem Staged.of_probe (h : Staged s) (hpc : s.pc = .probe) (e : Entry) (he : e.begun = none)
    (st : σ) (ns : Bool) (hns : e.skipsKeys = ns) :
    Staged { s with store := st, log := s.log ++ [e],
                    record := if ns then s.record.add [("Keys op/s", -1)] else s.record,
                    pc := if ns then .start .set else .start .keys } := by
  obtain ⟨n, hn, hnb⟩ := h.begun
  obtain rfl : n = 0 := by simpa [hpc, Pc.bound] using hnb (by simp [hpc])
  obtain ⟨disk, hd, hh⟩ := h.headers (by simp [hpc])
  have h0 : begins s.log = [] := by rw [hn, List.take_zero, List.drop_nil]
  have hlog : begins (s.log ++ [e]) = [] := by rw [begins_append, h0, begins_singleton, he]; rfl
  have hskip : keysSkipped (s.log ++ [e]) = ns := by
    rw [keysSkipped_append, h.probed (by simp [hpc, Pc.bound]), keysSkipped_singleton, hns, Bool.false_or]
  have hw : s.writer.isSome ↔ Kind.getSet ∈ begins (s.log ++ [e]) := by rw [h.writer, h0, hlog]
  rw [hpc] at hh
  cases ns
  · exact ⟨⟨0, by rw [hlog]; simp, fun _ => rfl⟩, fun _ => hskip, nofun, fun _ => ⟨disk, hd, hh⟩, hw⟩
  · refine ⟨⟨1, by rw [hlog, hskip]; rfl, fun _ => rfl⟩, fun h0 => by simp [Pc.bound, Kind.rank] at h0,
      nofun, fun _ => ⟨disk, hd, ?_⟩, hw⟩
    simp [Record.add, hh, Pc.headers, Pc.measured, Kind.rank, Kind.order, Kind.headers]

theorem Kind.next_eq_none {k : Kind} (h : k.next = none) : k = .del := by
  cases k <;> first | rfl | cases h

/-- Every `Step` keeps `Staged`. -/
theorem Staged.step (hs : Step f B s s') (h : Staged s) : Staged s' := by
  cases hs with
  | elapse | fire | enter => exact h.frame rfl rfl rfl rfl rfl
  | exit | call => exact h.frame (by simp) (by simp [Entry.skipsKeys]) rfl rfl rfl
  | wselect _ hw | wcount _ hw => exact h.frame rfl rfl (by simp [hw]) rfl rfl
  | wcall _ _ hw => exact h.frame (by simp) (by simp [Entry.skipsKeys]) (by simp [hw]) rfl rfl
  | bulkPanic | startPanic | measurePanic | exitPanic => exact h.panic
  | start _ hpc => exact h.of_start hpc _ (by split <;> rfl) (by split <;> rfl) (by split <;> simp [*])
  | probe d _ hpc => exact h.of_probe hpc (.call .driver 0 _ _) rfl _ _ (by simp [Entry.skipsKeys, probeOp])
  | bulk _ hpc =>
    exact h.of_move (by simp) (by simp) rfl
      (fun _ => by simp [hpc, Pc.bound]) (fun _ => nofun) (fun _ _ hh => hh.trans (hpc ▸ rfl))
  | clock _ hpc | spawn _ hpc | spawnEnd _ hpc | closeCh _ hpc | save _ hpc =>
    exact h.of_move (by simp) (by simp [Entry.skipsKeys]) rfl (fun _ => by simp [hpc, Pc.bound])
      (fun _ hk => by rw [hpc]; exact hk) (fun _ _ hh => hh.trans (hpc ▸ rfl))
  | wait _ hpc =>
    exact h.of_move rfl rfl rfl (fun _ => by split <;> simp_all [Pc.bound])
      (fun _ hk => by split at hk <;> simp_all [Pc.running])
      (fun _ _ hh => hh.trans (by split <;> simp [hpc, Pc.headers, Pc.measured, *]))
  | bulkDone _ hpc =>
    refine h.of_move rfl rfl rfl (fun _ => by simp [hpc, Pc.bound]) (fun _ => nofun) fun _ _ hh => ?_
    simp [Record.add, hh, hpc, Pc.headers, batchColumns]
  | mem _ _ _ hpc =>
    refine h.of_move rfl rfl rfl (fun _ => by simp [hpc, Pc.bound]) (fun _ => nofun) fun _ _ hh => ?_
    simp [Record.add, hh, hpc, Pc.headers, memColumns]
  | disk size _ hpc =>
    obtain ⟨n, hn, hnb⟩ := h.begun
    refine ⟨⟨n, hn, fun _ => by simpa [hpc, Pc.bound] using hnb (by simp [hpc])⟩,
      fun _ => h.probed (by simp [hpc, Pc.bound]), nofun,
      fun _ => ⟨(diskColumns size).map Prod.fst, by cases size <;> simp [DiskHeaders, diskColumns], ?_⟩,
      h.writer⟩
    obtain ⟨disk, -, hh⟩ := h.headers (by simp [hpc])
    simp [Record.add, hh, hpc, Pc.headers, Pc.measured]
  | measure _ hpc hm =>
    obtain ⟨n, hn, hnb⟩ := h.begun
    obtain ⟨disk, hd, hh⟩ := h.headers (by simp [hpc])
    have hn' : n = _ := hnb (by simp [hpc])
    have hcols := Sys.columns_headers hm
    rw [hpc] at hh hn'
    split
    · rename_i k' hk
      have hr := Kind.rank_next hk
      refine ⟨⟨n, hn, fun _ => by simp [hn', hr, Pc.bound]⟩, fun h0 => by simp [Pc.bound, hr] at h0, nofun,
        fun _ => ⟨disk, hd, ?_⟩, h.writer⟩
      simp [Record.add, hh, hcols, Pc.headers, Pc.measured, hr, Kind.order_take_succ]
    · rename_i hk
      obtain rfl := Kind.next_eq_none hk
      refine ⟨⟨n, hn, fun _ => hn'⟩, fun h0 => by simp [Pc.bound] at h0, nofun, fun _ => ⟨disk, hd, ?_⟩,
        h.writer⟩
      simp [Record.add, hh, hcols, Pc.headers, Pc.measured]
      rfl

end

/-- Every reachable state is `Staged`. -/
theorem reachable_staged {s : Sys σ} (hr : Reachable f B s) : Staged s :=
  Reachable.induction (fun _ _ => Staged.init _ _) (fun _ _ hs h => h.step hs) hr

/-! ## Whole runs -/

theorem Staged.nodup (h : Staged s) : (begins s.log).Nodup := by
  obtain ⟨n, hn, -⟩ := h.begun
  rw [hn]
  exact (show Kind.order.Nodup by decide).sublist ((List.drop_sublist _ _).trans (List.take_sublist _ _))

theorem take_drop_prefix (l : List Kind) (n : Nat) (skip : Bool) :
    (l.take n).drop skip.toNat <+: if skip then l.tail else l := by
  cases skip
  · exact List.take_prefix n l
  · rw [if_pos rfl, Bool.toNat_true, List.drop_take, ← List.drop_one]
    exact List.take_prefix _ _

/-- **The phases run in `main`'s order.** In every reachable state the phases
    begun are, in the order of the log and each once, `testKeys`, `testSet`,
    `testGet`, `testGetSet` and `testDelete` as far as the driver has come,
    `testKeys` left out exactly when the log records its first scan
    reporting `ErrNotSupported`; the phase whose workers run is the last one
    begun; a run that exits has begun them all, but `testKeys` in that case. -/
theorem phases_in_order {s : Sys σ} (hr : Reachable f B s) :
    (begins s.log).Nodup ∧
    begins s.log <+: (if keysSkipped s.log then Kind.order.tail else Kind.order) ∧
    (∀ k, s.pc.running = some k → (begins s.log).getLast? = some k) ∧
    (s.pc = .exited → begins s.log = if keysSkipped s.log then Kind.order.tail else Kind.order) := by
  have h := reachable_staged hr
  obtain ⟨n, hn, hnb⟩ := h.begun
  refine ⟨h.nodup, hn ▸ take_drop_prefix _ n _, h.last, fun hx => ?_⟩
  obtain rfl : n = 5 := by simpa [hx, Pc.bound, Kind.rank] using hnb (by simp [hx])
  rw [hn]
  cases keysSkipped s.log <;> rfl

/-- `oneWorkerRun` runs to the end of `main`. -/
theorem oneWorkerRun_exits :
    Reachable oneWorkerFlags refStore (oneWorkerAt oneWorkerFlags none 66) ∧
      (oneWorkerAt oneWorkerFlags none 66).pc = .exited :=
  ⟨⟨∅, none, (oneWorkerRun none).take 66, rfl⟩, by decide⟩

theorem phases_in_order_one_worker :
    Reachable oneWorkerFlags refStore (oneWorkerAt oneWorkerFlags none 66) ∧
      (oneWorkerAt oneWorkerFlags none 66).pc = .exited ∧
      begins (oneWorkerAt oneWorkerFlags none 66).log =
        if keysSkipped (oneWorkerAt oneWorkerFlags none 66).log then Kind.order.tail else Kind.order :=
  ⟨oneWorkerRun_exits.1, oneWorkerRun_exits.2,
    (phases_in_order oneWorkerRun_exits.1).2.2.2 oneWorkerRun_exits.2⟩

/-- The header row of a run that exits: `name`, the bulk load's cost, the two
    memory columns, the disk column if `showDiskUsage` found the store's path
    (`disk`), and the rates of the five phases, two for `testGetSet`. -/
def exitHeaders (disk : List String) : List String :=
  ["name", "batch write cost(s)", "MemUsage(MiB)", "HeapInuse(MiB)"] ++ disk ++
    ["Keys op/s", "Set op/s", "Get op/s", "Setmixed op/s", "Getmixed op/s", "Del op/s"]

/-- **The record's columns.** Whatever the backend, the schedule and the
    measurements, a run that exits has the headers `exitHeaders disk`, with
    `disk` the disk column or nothing: `testKeys` skipped or not. -/
theorem record_headers_at_exit {s : Sys σ} (hr : Reachable f B s) (hx : s.pc = .exited) :
    ∃ disk, DiskHeaders disk ∧ s.record.headers = exitHeaders disk := by
  obtain ⟨disk, hd, hh⟩ := (reachable_staged hr).headers (by simp [hx])
  exact ⟨disk, hd, by rw [hh, hx]; rfl⟩

theorem record_headers_one_worker :
    Reachable oneWorkerFlags refStore (oneWorkerAt oneWorkerFlags none 66) ∧
      (oneWorkerAt oneWorkerFlags none 66).pc = .exited ∧
      ∃ disk, DiskHeaders disk ∧ (oneWorkerAt oneWorkerFlags none 66).record.headers = exitHeaders disk :=
  ⟨oneWorkerRun_exits.1, oneWorkerRun_exits.2,
    record_headers_at_exit oneWorkerRun_exits.1 oneWorkerRun_exits.2⟩

end KvBench
