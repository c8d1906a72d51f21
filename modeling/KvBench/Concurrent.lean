/-
  kvbench formalization — one `leveldbStore` called by several goroutines at
  once.

  * Each call of the `leveldb.DB` is one atomic step. `Set`, `Get` and `PSet`
    make one DB call each (`Put`, `Get`, `Write`), so each of them is one
    step; `Del` makes two, `Has` and then, if the key is
    there, `Delete` (`delHas`, `delDelete`; `exec_del_split` puts them back
    together into `LeveldbStore.del`).
  * These four methods all take the read lock, which they share, so among
    them it orders nothing and is left out. `Close` and `FlushDB`, which take
    the write lock, and `PGet` and `Keys` are outside this model.
  * `Conc` is the store, the callers (`Caller`: the calls still to make, and
    where the current one stands) and the history of their invocations and
    returns; `Conc.step c` lets caller `c` take its next step.
  * `linearizable_of_dels_apart`: a history in which no two `Del` of one key
    overlap is linearizable with respect to the finite-map store, the
    linearization point of each call being one of its DB calls.
  * `dels_both_existed`: after one `Set(k, v)`, two overlapping `Del(k)` whose
    `Has` both run before either `Delete` both report `existed = true`; that
    history is not linearizable.
-/
import KvBench.LevelDB
import KvBench.Linearizability

namespace KvBench

/-- Where a caller stands in its current call on the adapter. -/
inductive Phase where
  | idle
  /-- invoked, no DB call made yet -/
  | calling (op : Op)
  /-- in `Del`: `Has` found the key, `Delete` not made yet -/
  | deleting (k : Bytes)
  /-- the DB calls made, `r` not yet returned -/
  | returning (op : Op) (r : Reply)
  deriving DecidableEq, Repr

/-- The call a caller has open. -/
def Phase.current : Phase → Option Op
  | .idle => none
  | .calling op => some op
  | .deleting k => some (.del k)
  | .returning op _ => some op

/-- The phase as the linearization check sees it: a call takes effect at its
    last DB call. -/
def Phase.pend : Phase → Pend
  | .idle => .idle
  | .calling op => .invoked op
  | .deleting k => .invoked (.del k)
  | .returning op r => .applied op r

/-- A goroutine calling the adapter. -/
structure Caller where
  calls : List Op
  phase : Phase

/-- One `leveldbStore`, its callers, and the history of their calls. -/
structure Conc where
  store : LeveldbStore
  callers : List Caller
  history : List HEvent

namespace LeveldbStore

variable (s : LeveldbStore)

/-- `Del`'s first DB call, `s.db.Has(key, nil)`: the reply if the call ends
    there, `none` if `Delete` follows. -/
def delHas (k : Bytes) : Option (Option Reply) := do
  let db ← s.db
  match db.has k with
  | .error e => pure (some (.del false (some e)))
  | .ok false => pure (some (.del false none))
  | .ok true => pure none

/-- `Del`'s second DB call, `s.db.Delete(key, s.wo)`. -/
def delDelete (k : Bytes) : Option (Reply × LeveldbStore) := do
  let db ← s.db
  match db.delete k with
  | .error e => pure (.del false (some e), s)
  | .ok db' => pure (.del true none, { s with db := some db' })

/-- `Has` and then `Delete`, with no other step between them, is `Del`. -/
theorem exec_del_split (m : Lent) (k : Bytes) (e : Option Error) :
    s.exec m (.del k) e =
      (s.delHas k).bind fun | some r => some (r, s) | none => s.delDelete k := by
  rcases s with ⟨_ | db, path, fsync, wo⟩
  · rfl
  · cases h : (db.kv.lookup k).isSome <;>
      simp [exec, del, delHas, delDelete, LevelDB.has, LevelDB.delete, h]

/-- The first DB call of a call: `Del`'s `Has`, or the one call `Set`, `Get`
    and `PSet` make. -/
def firstCall (op : Op) : Option (Phase × LeveldbStore) :=
  match op with
  | .del k => (s.delHas k).map fun | some r => (.returning op r, s) | none => (.deleting k, s)
  | .set k v => (s.set k v).map fun (e, s') => (.returning op (.err e), s')
  | .get k => (s.get k).map fun (v, ok, e) => (.returning op (.get v ok e), s)
  | .pset ks vs => (s.pset ks vs).map fun (e, s') => (.returning op (.err e), s')
  | _ => none

end LeveldbStore

/-- Caller `c`'s next step on store `s`: its new state, the store's, and the
    events it adds to the history. -/
def Caller.step (s : LeveldbStore) (c : Nat) (w : Caller) :
    Option (Caller × LeveldbStore × List HEvent) :=
  match w.phase, w.calls with
  | .idle, op :: ops => some (⟨ops, .calling op⟩, s, [.inv c op])
  | .idle, [] => none
  | .calling op, ops => (s.firstCall op).map fun (ph, s') => (⟨ops, ph⟩, s', [])
  | .deleting k, ops => (s.delDelete k).map fun (r, s') => (⟨ops, .returning (.del k) r⟩, s', [])
  | .returning op r, ops => some (⟨ops, .idle⟩, s, [.ret c op r])

namespace Conc

/-- Callers with programs `progs`, all idle, on store `s`. -/
def init (s : LeveldbStore) (progs : List (List Op)) : Conc :=
  ⟨s, progs.map (⟨·, .idle⟩), []⟩

/-- Caller `c` takes its next step. -/
def step (c : Nat) (t : Conc) : Option Conc := do
  let w ← t.callers[c]?
  let (w', s', es) ← w.step t.store c
  pure ⟨s', t.callers.set c w', t.history ++ es⟩

/-- Runs a schedule: the callers that take the steps, in order. -/
def run : List Nat → Conc → Option Conc
  | [], t => some t
  | c :: cs, t => (t.step c).bind (run cs)

theorem step_history {c : Nat} {t t' : Conc} (h : t.step c = some t') :
    t.history <+: t'.history := by
  simp only [step, Option.bind_eq_bind, Option.bind_eq_some, Option.pure_def,
    Option.some.injEq] at h
  obtain ⟨_, _, ⟨_, _, _⟩, _, rfl⟩ := h
  exact List.prefix_append _ _

theorem run_history : ∀ {cs : List Nat} {t t' : Conc}, t.run cs = some t' →
    t.history <+: t'.history
  | [], _, _, h => by cases h; exact List.prefix_refl _
  | _ :: _, _, _, h => by
    obtain ⟨_, h₁, h₂⟩ := Option.bind_eq_some.1 h
    exact (step_history h₁).trans (run_history h₂)

end Conc

/-! ## Linearization points of a run -/

theorem pset_refines {s s' : LeveldbStore} {db : LevelDB} (hs : s.db = some db)
    {ks vs : List Bytes} {e : Option Error} (h : s.pset ks vs = some (e, s')) :
    Reply.err e = (refStore.exec (.pset ks vs) db.kv).1 ∧
      ∃ db', s'.db = some db' ∧ db'.kv = (refStore.exec (.pset ks vs) db.kv).2 := by
  by_cases hl : ks.length ≤ vs.length
  · simp [LeveldbStore.pset, hs, batchOf, LevelDB.write, hl] at h
    obtain ⟨rfl, rfl⟩ := h
    exact ⟨rfl, _, rfl, rfl⟩
  · simp [LeveldbStore.pset, hs, batchOf, hl] at h

/-- The first DB call of a call on an open store: either `Del`'s `Has`
    finds the key and the call goes on to `Delete`, or the call takes effect
    here, replying as the finite-map store does and leaving its contents.
    Either way no key goes away. -/
theorem firstCall_refines {s s' : LeveldbStore} {db : LevelDB} (hs : s.db = some db) {op : Op}
    {ph : Phase} (h : s.firstCall op = some (ph, s')) :
    (∃ k, op = .del k ∧ k ∈ db.kv ∧ ph = .deleting k ∧ s' = s) ∨
      (ph = .returning op (refStore.exec op db.kv).1 ∧
        ∃ db', s'.db = some db' ∧ db'.kv = (refStore.exec op db.kv).2 ∧ ∀ k ∈ db.kv, k ∈ db'.kv) := by
  have keep : ∀ {db' : LevelDB}, db'.kv = (refStore.exec op db.kv).2 →
      (∀ k, Op.removes k op = false) → ∀ k ∈ db.kv, k ∈ db'.kv := by
    intro db' hkv hr k hk; exact hkv ▸ refStore_mem_exec hk op (hr k)
  cases op with
  | del k =>
    by_cases hk : k ∈ db.kv
    · have : (db.kv.lookup k).isSome = true := AList.lookup_isSome.2 hk
      simp [LeveldbStore.firstCall, LeveldbStore.delHas, LevelDB.has, hs, this] at h
      exact Or.inl ⟨k, rfl, hk, h.1.symm, h.2.symm⟩
    · have : (db.kv.lookup k).isSome = false := by simpa [AList.lookup_eq_none] using hk
      simp [LeveldbStore.firstCall, LeveldbStore.delHas, LevelDB.has, hs, this] at h
      obtain ⟨rfl, rfl⟩ := h
      exact Or.inr ⟨by simp [Store.exec, refStore, this], db, hs,
        by simp [Store.exec, refStore, KV.erase_of_not_mem hk], fun _ h => h⟩
  | set k v =>
    simp [LeveldbStore.firstCall, LeveldbStore.set, LevelDB.put, hs] at h
    obtain ⟨rfl, rfl⟩ := h
    exact Or.inr ⟨rfl, _, rfl, rfl, keep rfl fun _ => rfl⟩
  | get k =>
    simp [LeveldbStore.firstCall, get_eq hs] at h
    obtain ⟨rfl, rfl⟩ := h
    exact Or.inr ⟨rfl, db, hs, rfl, fun _ h => h⟩
  | pset ks vs =>
    simp only [LeveldbStore.firstCall, Option.map_eq_some'] at h
    obtain ⟨⟨e, s''⟩, he, h⟩ := h
    cases h
    obtain ⟨hr, db', hdb', hkv⟩ := pset_refines hs he
    rw [← hr]
    exact Or.inr ⟨rfl, db', hdb', hkv, keep hkv fun _ => rfl⟩
  | pget | keys | flushDB | close => cases h

/-- `Delete` of a key that is there replies as the finite-map store's `Del`. -/
theorem delDelete_refines {s s' : LeveldbStore} {db : LevelDB} (hs : s.db = some db) {k : Bytes}
    (hk : k ∈ db.kv) {r : Reply} (h : s.delDelete k = some (r, s')) :
    r = (refStore.exec (.del k) db.kv).1 ∧
      ∃ db', s'.db = some db' ∧ db'.kv = (refStore.exec (.del k) db.kv).2 := by
  simp [LeveldbStore.delDelete, LevelDB.delete, hs] at h
  obtain ⟨rfl, rfl⟩ := h
  exact ⟨by simp [Store.exec, refStore, AList.lookup_isSome.2 hk], _, rfl, rfl⟩

/-- What the linearization argument carries along a run from a store holding
    `m₀` with `n` callers: the store is open; linearization points placed in
    the history so far pass the check and end in the store's contents and
    the callers' phases; a caller between `Has` and `Delete` finds its key
    there; and the history's open calls are the callers' current ones. -/
structure Conc.Linearized (m₀ : KV) (n : Nat) (t : Conc) : Prop where
  len : t.callers.length = n
  points : ∃ db h', t.store.db = some db ∧ h'.filterMap LEvent.visible = t.history ∧
    linRun (m₀, List.replicate n .idle) h' = some (db.kv, t.callers.map (·.phase.pend)) ∧
    ∀ (c : Nat) (w : Caller), t.callers[c]? = some w → ∀ k, w.phase = .deleting k → k ∈ db.kv
  opens : ∀ (c : Nat) (w : Caller), t.callers[c]? = some w → openOf t.history c = w.phase.current

theorem Conc.Linearized.init {s₀ : LeveldbStore} {db₀ : LevelDB} (hs : s₀.db = some db₀)
    (progs : List (List Op)) : (Conc.init s₀ progs).Linearized db₀.kv progs.length := by
  refine ⟨by simp [Conc.init], ⟨db₀, [], hs, rfl, ?_, ?_⟩, ?_⟩
  · simp [Conc.init, linRun, Phase.pend, Function.comp_def, List.map_const']
  · intro c w h
    obtain ⟨_, _, rfl⟩ := by simpa [Conc.init] using h
    simp
  · intro c w h
    obtain ⟨_, _, rfl⟩ := by simpa [Conc.init] using h
    rfl

theorem getElem?_set_some {α : Type} {l : List α} {c c'' : Nat} {a b : α}
    (h : (l.set c a)[c'']? = some b) : (c'' = c ∧ b = a) ∨ (c'' ≠ c ∧ l[c'']? = some b) := by
  rw [List.getElem?_set] at h
  split_ifs at h with hcc hlt
  · exact Or.inl ⟨hcc.symm, (Option.some.inj h).symm⟩
  · exact Or.inr ⟨Ne.symm hcc, h⟩

section
variable {t : Conc} {c : Nat} {w w' : Caller}

theorem pend_getElem? (hw : t.callers[c]? = some w) :
    (t.callers.map (·.phase.pend))[c]? = some w.phase.pend := by
  simp [hw]

/-- Checking one more event of caller `c`, whose pending call becomes its new
    phase's. -/
theorem linRun_set {x : KV × List Pend} {h' : List LEvent} {m m' : KV}
    (hrun : linRun x h' = some (m, t.callers.map (·.phase.pend))) {e : LEvent}
    (he : linStep (m, t.callers.map (·.phase.pend)) e =
      some (m', (t.callers.map (·.phase.pend)).set c w'.phase.pend)) :
    linRun x (h' ++ [e]) = some (m', (t.callers.set c w').map (·.phase.pend)) := by
  rw [linRun_snoc hrun, he, List.map_set]

theorem map_pend_set (hw : t.callers[c]? = some w) (hp : w'.phase.pend = w.phase.pend) :
    (t.callers.set c w').map (·.phase.pend) = t.callers.map (·.phase.pend) := by
  refine List.ext_getElem? fun j => ?_
  rw [List.map_set, List.getElem?_set]
  split_ifs with hj hlt
  · subst hj; rw [pend_getElem? hw, hp]
  · subst hj; exact absurd (by simpa using (List.getElem?_eq_some_iff.1 hw).1) hlt
  · rfl

theorem opens_set
    (hl : ∀ (c : Nat) (w : Caller), t.callers[c]? = some w → openOf t.history c = w.phase.current)
    {es : List HEvent} (hes : ∀ c', c' ≠ c → openOf (t.history ++ es) c' = openOf t.history c')
    (hc : openOf (t.history ++ es) c = w'.phase.current) :
    ∀ (c'' : Nat) (w'' : Caller), (t.callers.set c w')[c'']? = some w'' →
      openOf (t.history ++ es) c'' = w''.phase.current := by
  intro c'' w'' h
  rcases getElem?_set_some h with ⟨rfl, rfl⟩ | ⟨hcc, h⟩
  · exact hc
  · rw [hes c'' hcc]; exact hl c'' w'' h

theorem deleting_set {m m' : KV}
    (hl : ∀ (c : Nat) (w : Caller), t.callers[c]? = some w → ∀ k, w.phase = .deleting k → k ∈ m)
    (hm : ∀ (c'' : Nat) (w'' : Caller), c'' ≠ c → t.callers[c'']? = some w'' → ∀ k,
      w''.phase = .deleting k → k ∈ m → k ∈ m')
    (hc : ∀ k, w'.phase = .deleting k → k ∈ m') :
    ∀ (c'' : Nat) (w'' : Caller), (t.callers.set c w')[c'']? = some w'' → ∀ k,
      w''.phase = .deleting k → k ∈ m' := by
  intro c'' w'' h k hk
  rcases getElem?_set_some h with ⟨rfl, rfl⟩ | ⟨hcc, h⟩
  · exact hc k hk
  · exact hm c'' w'' hcc h k hk (hl c'' w'' h k hk)

end

/-- **One step keeps the linearization.** A step of caller `c`, taken while no
    two callers are inside `Del` of one key, keeps the invariant: the step's
    linearization point, if it has one, is appended to the history with
    points. -/
theorem Conc.Linearized.step {m₀ : KV} {n c : Nat} {t t' : Conc} (hl : t.Linearized m₀ n)
    (hno : ¬ DelsOverlap n t.history) (hs : t.step c = some t') : t'.Linearized m₀ n := by
  obtain ⟨hlen, ⟨db, h', hdb, hvis, hrun, hdel⟩, hop⟩ := hl
  simp only [Conc.step, Option.bind_eq_bind, Option.bind_eq_some, Option.pure_def,
    Option.some.injEq] at hs
  obtain ⟨w, hw, ⟨w', s', es⟩, hws, rfl⟩ := hs
  have hp := pend_getElem? hw
  have hlen' : (t.callers.set c w').length = n := by simp [hlen]
  have hkeep : ∀ c' w'', c' ≠ c → t.callers[c']? = some w'' → ∀ k,
      w''.phase = .deleting k → k ∈ db.kv → k ∈ db.kv := fun _ _ _ _ _ _ h => h
  rcases w with ⟨calls, _ | op | k | ⟨op, r⟩⟩
  · -- idle: invoke the next call
    cases calls with
    | nil => cases hws
    | cons op ops =>
      simp only [Caller.step, Option.some.injEq, Prod.mk.injEq] at hws
      obtain ⟨rfl, rfl, rfl⟩ := hws
      refine ⟨hlen', ⟨db, h' ++ [.ev (.inv c op)], hdb, by simp [hvis, LEvent.visible],
        linRun_set hrun (linStep_inv hp op), deleting_set hdel hkeep (by simp)⟩, ?_⟩
      exact opens_set hop (by simp [HEvent.track]; omega) (by simp [HEvent.track, Phase.current])
  · -- calling: the first DB call
    simp only [Caller.step, Option.map_eq_some'] at hws
    obtain ⟨⟨ph, s''⟩, hf, h⟩ := hws
    cases h
    dsimp only
    rcases firstCall_refines hdb hf with ⟨k, rfl, hk, rfl, rfl⟩ | ⟨rfl, db', hdb', hkv, hmem⟩
    · -- `Has` found the key: the call takes effect later
      refine ⟨hlen', ⟨db, h', hdb, by simp [hvis], ?_, deleting_set hdel hkeep (by simp [hk])⟩, ?_⟩
      · dsimp only; rw [@map_pend_set t c _ ⟨calls, .deleting k⟩ hw rfl]; exact hrun
      · exact opens_set hop (by simp) (by simpa [Phase.current] using hop c _ hw)
    · -- the call takes effect
      refine ⟨hlen', ⟨db', h' ++ [.lin c], hdb', by simp [hvis, LEvent.visible], ?_,
        deleting_set hdel (fun _ _ _ _ k _ h => hmem k h) (by simp)⟩, ?_⟩
      · rw [hkv]; exact linRun_set hrun (linStep_lin hp)
      · exact opens_set hop (by simp) (by simpa [Phase.current] using hop c _ hw)
  · -- deleting: `Delete` takes effect
    simp only [Caller.step, Option.map_eq_some'] at hws
    obtain ⟨⟨r, s''⟩, hf, h⟩ := hws
    cases h
    dsimp only
    have hk := hdel c _ hw k rfl
    obtain ⟨rfl, db', hdb', hkv⟩ := delDelete_refines hdb hk hf
    refine ⟨hlen', ⟨db', h' ++ [.lin c], hdb', by simp [hvis, LEvent.visible], ?_, ?_⟩, ?_⟩
    · rw [hkv]; exact linRun_set hrun (linStep_lin hp)
    · refine deleting_set hdel (fun c' w'' hc' hw'' k' hk' h => ?_) (by simp)
      have hne : k' ≠ k := by
        rintro rfl
        have h₁ : c < n := hlen ▸ (List.getElem?_eq_some_iff.1 hw).1
        have h₂ : c' < n := hlen ▸ (List.getElem?_eq_some_iff.1 hw'').1
        exact hno (delsOverlap_of_open h₁ h₂ (Ne.symm hc') (hop c _ hw)
          (by simpa [Phase.current, hk'] using hop c' _ hw''))
      simpa [hkv, Store.exec, refStore, AList.mem_erase, hne] using h
    · exact opens_set hop (by simp) (by simpa [Phase.current] using hop c _ hw)
  · -- returning
    simp only [Caller.step, Option.some.injEq, Prod.mk.injEq] at hws
    obtain ⟨rfl, rfl, rfl⟩ := hws
    refine ⟨hlen', ⟨db, h' ++ [.ev (.ret c op r)], hdb, by simp [hvis, LEvent.visible],
      linRun_set hrun (linStep_ret hp), deleting_set hdel hkeep (by simp)⟩, ?_⟩
    exact opens_set hop (by simp [HEvent.track]; omega) (by simp [HEvent.track, Phase.current])

/-- **A run keeps the linearization**, as long as no two callers are ever
    inside `Del` of one key. -/
theorem Conc.Linearized.run {m₀ : KV} {n : Nat} :
    ∀ {cs : List Nat} {t t' : Conc}, t.Linearized m₀ n → t.run cs = some t' →
      (∀ p ∈ t'.history.inits, ¬ DelsOverlap n p) → t'.Linearized m₀ n
  | [], _, _, hl, h, _ => by cases h; exact hl
  | _ :: _, _, _, hl, h, hno => by
    obtain ⟨_, h₁, h₂⟩ := Option.bind_eq_some.1 h
    exact Conc.Linearized.run (hl.step (hno _ ((List.mem_inits _ _).2 (Conc.run_history h))) h₁)
      h₂ hno

/-- **The adapter is linearizable while `Del`s of one key do not overlap.**
    Callers with any programs of `Set`, `PSet`, `Get` and `Del` on one open
    `leveldbStore`, scheduled in any order: if at no point two of them are
    inside `Del` of the same key, the history of their calls is linearizable
    with respect to the finite-map store holding the database's contents. -/
theorem linearizable_of_dels_apart {s₀ : LeveldbStore} {db₀ : LevelDB} (hs : s₀.db = some db₀)
    {progs : List (List Op)} {sched : List Nat} {t : Conc}
    (hrun : (Conc.init s₀ progs).run sched = some t)
    (hapart : ∀ p ∈ t.history.inits, ¬ DelsOverlap progs.length p) :
    Linearizable db₀.kv t.history := by
  obtain ⟨-, ⟨db, h', -, hvis, hlin, -⟩, -⟩ := (Conc.Linearized.init hs progs).run hrun hapart
  exact ⟨progs.length, h', hvis, by simp [hlin]⟩

/-! ## One `Set`, two `Del` -/

/-- An empty database at `leveldb.db`, opened without fsync. -/
def freshStore : LeveldbStore := ⟨some ⟨∅, some ⟨true⟩⟩, "leveldb.db", false, ⟨false⟩⟩

/-- Caller 0 sets key `[1]`; callers 1 and 2 delete it. -/
def setThenDels : List (List Op) := [[.set [1] [2]], [.del [1]], [.del [1]]]

/-- The two `Del` one after the other: the second finds nothing. -/
theorem linearizable_dels_in_turn :
    ∃ t, (Conc.init freshStore setThenDels).run [0, 0, 0, 1, 1, 1, 1, 2, 2, 2] = some t ∧
      (∀ p ∈ t.history.inits, ¬ DelsOverlap setThenDels.length p) ∧ Linearizable ∅ t.history :=
  ⟨_, rfl, by decide, @linearizable_of_dels_apart freshStore _ rfl setThenDels
    [0, 0, 0, 1, 1, 1, 1, 2, 2, 2] _ rfl (by decide)⟩

/-- The two `Del` overlapping, both `Has` before either `Delete`: both report
    `existed = true` after a single `Set`, which no order of the calls on the
    finite-map store gives. -/
theorem dels_both_existed :
    ∃ t, (Conc.init freshStore setThenDels).run [0, 0, 0, 1, 2, 1, 2, 1, 2, 1, 2] = some t ∧
      t.history = [.inv 0 (.set [1] [2]), .ret 0 (.set [1] [2]) (.err none), .inv 1 (.del [1]),
        .inv 2 (.del [1]), .ret 1 (.del [1]) (.del true none), .ret 2 (.del [1]) (.del true none)] ∧
      ¬ Linearizable ∅ t.history :=
  ⟨_, rfl, rfl, fun hl => absurd (hl.delTrues_le [1]) (by decide)⟩

end KvBench
