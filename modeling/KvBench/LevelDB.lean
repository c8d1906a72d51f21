/-
  kvbench formalization — the leveldb adapter (`leveldbStore`, one caller at
  a time).

  * `LevelDB` is a `leveldb.DB`: its contents (a finite map) and the options
    it was opened with; its calls `get`, `has`, `put`, `delete`, `write`
    return Go's `error` as `Except`;
  * `LeveldbStore` is the adapter's record; a method called while `db` is
    nil (after a failed reopen in `FlushDB`) panics, which is `none`;
  * `Lent` is what a caller reads in the slices a store lent it once the
    store may reuse their memory: `Keys` appends `iter.Key()` and
    `iter.Value()`, which the iterator's next step and `Release` take back;
  * `LeveldbStore.exec m op e` is one call, `e` being the outcome of
    `leveldb.OpenFile` should the call be `FlushDB`, `m` how the slices of
    `Keys` read;
  * `exec_refines`, `run_refines`: on `Set`, `PSet` with lists of equal
    length, `Get`, `PGet`, `Del` and successful `FlushDB`, the adapter
    returns what the finite-map store returns, and its contents follow the
    map's, with `path`, `fsync` and the write options unchanged.
-/
import KvBench.Store

namespace KvBench

/-- `opt.Options`, as far as the adapter sets it. -/
structure Options where
  noSync : Bool
  deriving DecidableEq

/-- `opt.WriteOptions`. -/
structure WriteOptions where
  sync : Bool
  deriving DecidableEq

/-- The slices a store lends its caller: an iterator's `Key()` and `Value()`,
    valid until its next step, `Release` or `Close`, and the value of pebble's
    `db.Get`, valid until `closer.Close()`. An adapter that hands them on past
    that point gives its caller memory the store may reuse: the slice header
    is the caller's copy, so the length stays, but the bytes are whatever the
    memory holds when read. `read i v` is what the `i`-th slice a call lent,
    holding `v`, reads as; `isNil i v` whether the store lent it nil, which
    only an empty slice can be. -/
structure Lent where
  read : Nat → Bytes → Bytes
  length_read : ∀ i v, (read i v).length = v.length
  isNil : Nat → Bytes → Bool
  isNil_empty : ∀ i v, isNil i v = true → v = []

/-- Memory nobody reuses: every slice reads as lent, and none is nil. -/
def Lent.intact : Lent := ⟨fun _ v => v, fun _ _ => rfl, fun _ _ => false, fun _ _ h => Bool.noConfusion h⟩

/-- The keys and, with `withvals`, the values an iterator's loop appends, as
    the caller reads them: each step lends its key and then its value. -/
def Lent.scan (m : Lent) (withvals : Bool) (es : List (Bytes × Bytes)) : List Bytes × List Bytes :=
  if withvals then (es.mapIdx fun i e => m.read (2 * i) e.1, es.mapIdx fun i e => m.read (2 * i + 1) e.2)
  else (es.mapIdx fun i e => m.read i e.1, [])

@[simp] theorem Lent.scan_nil (m : Lent) (w : Bool) : m.scan w [] = ([], []) := by
  cases w <;> rfl

/-- A `leveldb.DB`: its contents and the options it was opened with
    (`none` for nil, the defaults). -/
structure LevelDB where
  kv : KV
  opts : Option Options

namespace LevelDB

/-- `db.Get(key, nil)`. -/
def get (k : Bytes) (db : LevelDB) : Except Error Bytes :=
  match db.kv.lookup k with
  | some v => .ok v
  | none => .error .notFound

/-- `db.Has(key, nil)`. -/
def has (k : Bytes) (db : LevelDB) : Except Error Bool := .ok (db.kv.lookup k).isSome

/-- `db.Put(key, value, wo)`. -/
def put (k v : Bytes) (db : LevelDB) : Except Error LevelDB := .ok { db with kv := db.kv.insert k v }

/-- `db.Delete(key, wo)`. -/
def delete (k : Bytes) (db : LevelDB) : Except Error LevelDB := .ok { db with kv := db.kv.erase k }

/-- `db.Write(batch, wo)`: the batch's puts in order. -/
def write (batch : List (Bytes × Bytes)) (db : LevelDB) : Except Error LevelDB :=
  .ok { db with kv := KV.putAll db.kv batch }

/-- `db.NewIterator(util.BytesPrefix(p), nil)`: the entries with prefix `p`. -/
def iter (p : Bytes) (db : LevelDB) : List (Bytes × Bytes) := KV.withPrefix p db.kv

end LevelDB

/-- The prefix the adapter's `Keys` scans, `[]byte("foo-")`. -/
def fooPrefix : Bytes := "foo-".toUTF8.toList

theorem fooPrefix_eq : fooPrefix = [102, 111, 111, 45] := by
  simp +decide [fooPrefix, ByteArray.toList, ByteArray.toList.loop]

/-- `leveldbStore`: `db` is `none` once `FlushDB` failed to reopen. -/
structure LeveldbStore where
  db : Option LevelDB
  path : String
  fsync : Bool
  wo : WriteOptions

/-- The batch `PSet` builds: `batch.Put(keys[i], values[i])` for each `i`;
    `values[i]` out of range panics. -/
def batchOf (keys values : List Bytes) : Option (List (Bytes × Bytes)) :=
  if keys.length ≤ values.length then some (keys.zip values) else none

namespace LeveldbStore

variable (s : LeveldbStore)

/-- `Set`. -/
def set (k v : Bytes) : Option (Option Error × LeveldbStore) := do
  let db ← s.db
  match db.put k v with
  | .ok db' => pure (none, { s with db := some db' })
  | .error e => pure (some e, s)

/-- `Get`: `ErrNotFound` becomes `(nil, false, nil)`. -/
def get (k : Bytes) : Option (Bytes × Bool × Option Error) := do
  let db ← s.db
  match db.get k with
  | .ok v => pure (v, true, none)
  | .error e => if e = .notFound then pure ([], false, none) else pure ([], false, some e)

/-- `Del`: `Has`, then `Delete` when the key is there. -/
def del (k : Bytes) : Option ((Bool × Option Error) × LeveldbStore) := do
  let db ← s.db
  match db.has k with
  | .error e => pure ((false, some e), s)
  | .ok false => pure ((false, none), s)
  | .ok true =>
    match db.delete k with
    | .error e => pure ((false, some e), s)
    | .ok db' => pure ((true, none), { s with db := some db' })

/-- `PSet`: one batch written with `db.Write`. -/
def pset (keys values : List Bytes) : Option (Option Error × LeveldbStore) := do
  let db ← s.db
  let batch ← batchOf keys values
  match db.write batch with
  | .ok db' => pure (none, { s with db := some db' })
  | .error e => pure (some e, s)

/-- `PGet`: `Get` for each key, returning `(nil, nil, err)` on the first error. -/
def pget : List Bytes → Option (List Bytes × List Bool × Option Error)
  | [] => pure ([], [], none)
  | k :: ks => do
    let (v, ok, e) ← s.get k
    if e.isSome then return ([], [], e)
    let (vs, oks, e') ← pget ks
    if e'.isSome then return ([], [], e')
    return (v :: vs, ok :: oks, none)

/-- `Keys`: the entries under `fooPrefix`, whatever the pattern, appended as
    the iterator lends them and read after `iter.Release()`. -/
def keys (m : Lent) (_ : Bytes) (_ : Int) (withvalues : Bool) :
    Option (List Bytes × List Bytes × Option Error) := do
  let db ← s.db
  let r := m.scan withvalues (db.iter fooPrefix)
  pure (r.1, r.2, none)

/-- `FlushDB`: close, remove `path`, reopen it; `reopened` is the outcome of
    `leveldb.OpenFile` on the emptied path. -/
def flushDB (reopened : Option Error) : Option (Option Error × LeveldbStore) := do
  let _ ← s.db
  let opts : Option Options := if !s.fsync then some ⟨!s.fsync⟩ else none
  match reopened with
  | some e => pure (some e, { s with db := none })
  | none => pure (none, { s with db := some ⟨∅, opts⟩ })

/-- `Close`. -/
def close : Option (Option Error × LeveldbStore) := do
  let _ ← s.db
  pure (none, s)

/-- One call; `e` is the outcome of reopening the database, used by `FlushDB`,
    and `m` says how the slices `Keys` returns read. -/
def exec (m : Lent) : Op → Option Error → Option (Reply × LeveldbStore)
  | .set k v, _ => (s.set k v).map fun r => (.err r.1, r.2)
  | .get k, _ => (s.get k).map fun r => (.get r.1 r.2.1 r.2.2, s)
  | .del k, _ => (s.del k).map fun r => (.del r.1.1 r.1.2, r.2)
  | .pset ks vs, _ => (s.pset ks vs).map fun r => (.err r.1, r.2)
  | .pget ks, _ => (s.pget ks).map fun r => (.pget r.1 r.2.1 r.2.2, s)
  | .keys p n w, _ => (s.keys m p n w).map fun r => (.keys r.1 r.2.1 r.2.2, s)
  | .flushDB, e => (s.flushDB e).map fun r => (.err r.1, r.2)
  | .close, _ => s.close.map fun r => (.err r.1, r.2)

end LeveldbStore

/-- Runs calls one after another; `none` if one of them panics. -/
def LeveldbStore.run (m : Lent) : List (Op × Option Error) → LeveldbStore → Option (List Reply × LeveldbStore)
  | [], s => some ([], s)
  | (op, e) :: calls, s => do
    let (r, s') ← s.exec m op e
    let (rs, s'') ← LeveldbStore.run m calls s'
    pure (r :: rs, s'')

/-! ## Refinement of the finite-map store -/

/-- The calls the refinement covers: `PSet` with lists of equal length,
    `FlushDB` whose reopen succeeds, and `Set`, `Get`, `PGet`, `Del`. -/
def Covered : Op × Option Error → Prop
  | (.pset ks vs, _) => ks.length = vs.length
  | (.flushDB, e) => e = none
  | (.keys _ _ _, _) | (.close, _) => False
  | _ => True

section
variable {s : LeveldbStore} {db : LevelDB}

theorem batchOf_eq {ks vs : List Bytes} (h : ks.length = vs.length) :
    batchOf ks vs = some (ks.zip vs) := by
  simp [batchOf, h]

theorem get_eq (hs : s.db = some db) (k : Bytes) : s.get k = some (refStore.get k db.kv) := by
  cases h : db.kv.lookup k <;> simp [LeveldbStore.get, LevelDB.get, refStore, KV.get, hs, h]

theorem pget_eq (hs : s.db = some db) :
    ∀ ks : List Bytes, s.pget ks = some (refStore.pget ks db.kv)
  | [] => rfl
  | k :: ks => by
    simp [LeveldbStore.pget, get_eq hs, pget_eq hs ks, refStore]

theorem with_db_self (hs : s.db = some db) : { s with db := some db } = s := by
  cases s; cases hs; rfl

/-- **One call refines the map.** A covered call on the adapter returns the
    finite-map store's reply, and the adapter's contents become the map's;
    nothing but `db` changes. -/
theorem exec_refines (m : Lent) (hs : s.db = some db) {op : Op} {e : Option Error} (hc : Covered (op, e)) :
    ∃ db', s.exec m op e = some ((refStore.exec op db.kv).1, { s with db := some db' }) ∧
      db'.kv = (refStore.exec op db.kv).2 := by
  cases op with
  | set k v => exact ⟨{ db with kv := db.kv.insert k v }, by
      simp [LeveldbStore.exec, LeveldbStore.set, LevelDB.put, hs, Store.exec, refStore], rfl⟩
  | get k => exact ⟨db, by simp [LeveldbStore.exec, get_eq hs, Store.exec, with_db_self hs], rfl⟩
  | del k =>
    cases hk : (db.kv.lookup k).isSome
    · have hm : k ∉ db.kv := fun h => by simp [AList.lookup_isSome.2 h] at hk
      exact ⟨db, by simp [LeveldbStore.exec, LeveldbStore.del, LevelDB.has, hs, hk, Store.exec,
        refStore, with_db_self hs], by simp [Store.exec, refStore, KV.erase_of_not_mem hm]⟩
    · exact ⟨{ db with kv := db.kv.erase k }, by simp [LeveldbStore.exec, LeveldbStore.del,
        LevelDB.has, LevelDB.delete, hs, hk, Store.exec, refStore], rfl⟩
  | pset ks vs => exact ⟨{ db with kv := KV.putAll db.kv (ks.zip vs) }, by
      simp [LeveldbStore.exec, LeveldbStore.pset, LevelDB.write, hs, batchOf_eq hc, Store.exec,
        refStore], rfl⟩
  | pget ks => exact ⟨db, by simp [LeveldbStore.exec, pget_eq hs, Store.exec, with_db_self hs], rfl⟩
  | flushDB =>
    simp only [Covered] at hc; subst hc
    exact ⟨⟨∅, if !s.fsync then some ⟨!s.fsync⟩ else none⟩, by
      simp [LeveldbStore.exec, LeveldbStore.flushDB, hs, Store.exec, refStore], rfl⟩
  | keys | close => exact hc.elim

/-- **The leveldb adapter refines the finite-map store.** Started on any
    open database, any sequence of covered calls returns exactly the replies
    of the finite-map store started on its contents, and leaves the adapter
    holding the map's final contents, with `path`, `fsync` and `wo` unchanged. -/
theorem leveldb_refines (m : Lent) (s : LeveldbStore) (db : LevelDB) (hs : s.db = some db)
    (calls : List (Op × Option Error)) (hc : ∀ c ∈ calls, Covered c) :
    ∃ db', s.run m calls =
        some ((refStore.run (calls.map Prod.fst) db.kv).1, { s with db := some db' }) ∧
      db'.kv = (refStore.run (calls.map Prod.fst) db.kv).2 := by
  induction calls generalizing s db with
  | nil => exact ⟨db, by simp [LeveldbStore.run, Store.run, with_db_self hs], rfl⟩
  | cons c calls ih =>
    obtain ⟨op, e⟩ := c
    obtain ⟨db₁, h₁, hkv₁⟩ := exec_refines m hs (hc _ (List.mem_cons_self _ _))
    obtain ⟨db₂, h₂, hkv₂⟩ := ih { s with db := some db₁ } db₁ rfl
      (fun c hm => hc c (List.mem_cons_of_mem _ hm))
    refine ⟨db₂, ?_, by simpa [Store.run, hkv₁] using hkv₂⟩
    simp only [LeveldbStore.run, h₁, Option.bind_eq_bind, Option.some_bind, h₂]
    simp [Store.run, hkv₁]

end

/-- A run of `Set`, `Get`, `Del` and `FlushDB` on a fresh store. -/
theorem leveldb_refines_fresh :
    (∀ c ∈ [(Op.set [1] [2], none), (Op.get [1], none), (Op.del [1], none), (Op.flushDB, none)],
      Covered c) ∧
    ∃ db', LeveldbStore.run Lent.intact [(Op.set [1] [2], none), (Op.get [1], none), (Op.del [1], none),
        (Op.flushDB, none)] ⟨some ⟨∅, some ⟨true⟩⟩, "leveldb.db", false, ⟨false⟩⟩ =
      some ((refStore.run [.set [1] [2], .get [1], .del [1], .flushDB] ∅).1,
        ⟨some db', "leveldb.db", false, ⟨false⟩⟩) ∧
      db'.kv = (refStore.run [.set [1] [2], .get [1], .del [1], .flushDB] ∅).2 :=
  ⟨by simp [Covered], leveldb_refines Lent.intact ⟨some ⟨∅, some ⟨true⟩⟩, "leveldb.db", false, ⟨false⟩⟩
    ⟨∅, some ⟨true⟩⟩ rfl _ (by simp [Covered])⟩

end KvBench
