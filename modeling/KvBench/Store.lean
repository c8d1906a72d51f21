/-
  kvbench formalization — the Storage Contract (`kvbench.Store`) and the
  finite-map store it describes.

  * `Store σ` is the interface the benchmark drives, one function per method,
    each returning Go's results and the backend's next state;
  * `Op` and `Reply` are a call and its results, `Store.exec` dispatches;
    `Store.replay` checks recorded replies against the backend;
  * `refStore` is the finite-map store: `Get` of an absent key is
    `(nil, false, nil)`, `Del` reports presence, `PSet` applies its pairs in
    order, `FlushDB` empties the map;
  * `refStore_mem_exec`: a present key stays through any call that is not
    `Del` of it or `FlushDB`.
-/
import KvBench.Key

namespace KvBench

/-- The errors the benchmark and the adapters tell apart. -/
inductive Error where
  /-- `leveldb.ErrNotFound`, `pebble.ErrNotFound` -/
  | notFound
  /-- `kvbench.ErrNotSupported` -/
  | notSupported
  /-- `kvbench.ErrMemoryNotAllowed` -/
  | memoryNotAllowed
  /-- any other error, e.g. from the file system -/
  | other (msg : String)
  deriving DecidableEq, Repr

/-- A backend's contents: a finite map from byte strings to byte strings. -/
abbrev KV := AList (fun _ : Bytes => Bytes)

/-- The Storage Contract: the methods of `kvbench.Store` on a backend state `σ`. -/
structure Store (σ : Type) where
  set : Bytes → Bytes → σ → Option Error × σ
  get : Bytes → σ → Bytes × Bool × Option Error
  del : Bytes → σ → (Bool × Option Error) × σ
  pset : List Bytes → List Bytes → σ → Option Error × σ
  pget : List Bytes → σ → List Bytes × List Bool × Option Error
  keys : Bytes → Int → Bool → σ → List Bytes × List Bytes × Option Error
  flushDB : σ → Option Error × σ
  close : σ → Option Error × σ

/-- A call of the Storage Contract. -/
inductive Op where
  | set (k v : Bytes)
  | get (k : Bytes)
  | del (k : Bytes)
  | pset (ks vs : List Bytes)
  | pget (ks : List Bytes)
  | keys (p : Bytes) (limit : Int) (withValues : Bool)
  | flushDB
  | close
  deriving DecidableEq, Repr

/-- The results of a call. -/
inductive Reply where
  | err (e : Option Error)
  | get (v : Bytes) (found : Bool) (e : Option Error)
  | del (existed : Bool) (e : Option Error)
  | pget (vs : List Bytes) (founds : List Bool) (e : Option Error)
  | keys (ks vs : List Bytes) (e : Option Error)
  deriving DecidableEq, Repr

variable {σ : Type}

/-- One call on a backend. -/
def Store.exec (B : Store σ) : Op → σ → Reply × σ
  | .set k v, s => let r := B.set k v s; (.err r.1, r.2)
  | .get k, s => let r := B.get k s; (.get r.1 r.2.1 r.2.2, s)
  | .del k, s => let r := B.del k s; (.del r.1.1 r.1.2, r.2)
  | .pset ks vs, s => let r := B.pset ks vs s; (.err r.1, r.2)
  | .pget ks, s => let r := B.pget ks s; (.pget r.1 r.2.1 r.2.2, s)
  | .keys p n w, s => let r := B.keys p n w s; (.keys r.1 r.2.1 r.2.2, s)
  | .flushDB, s => let r := B.flushDB s; (.err r.1, r.2)
  | .close, s => let r := B.close s; (.err r.1, r.2)

/-- Runs calls one after another, collecting the replies. -/
def Store.run (B : Store σ) : List Op → σ → List Reply × σ
  | [], s => ([], s)
  | op :: ops, s =>
    let r := B.exec op s
    let rs := B.run ops r.2
    (r.1 :: rs.1, rs.2)

/-- Replays recorded calls from `s`: the state after them, provided each
    recorded reply is the one the call gets at its point. -/
def Store.replay (B : Store σ) : σ → List (Op × Reply) → Option σ
  | s, [] => some s
  | s, (op, r) :: cs => if (B.exec op s).1 = r then B.replay (B.exec op s).2 cs else none

/-! ## The finite-map store -/

namespace KV

/-- `Get` on a map: the stored value, or `(nil, false, nil)`. -/
def get (k : Bytes) (m : KV) : Bytes × Bool × Option Error :=
  match m.lookup k with
  | some v => (v, true, none)
  | none => ([], false, none)

/-- `PSet` on a map: the pairs in order, the last write of a key winning. -/
def putAll (m : KV) (ps : List (Bytes × Bytes)) : KV :=
  ps.foldl (fun m p => m.insert p.1 p.2) m

/-- The entries whose key starts with `p`. -/
def withPrefix (p : Bytes) (m : KV) : List (Bytes × Bytes) :=
  (m.entries.filter fun e => p.isPrefixOf e.1).map fun e => (e.1, e.2)

@[simp] theorem get_err (k : Bytes) (m : KV) : (get k m).2.2 = none := by
  unfold get; split <;> rfl

theorem erase_of_not_mem {k : Bytes} {m : KV} (h : k ∉ m) : m.erase k = m :=
  AList.ext (List.kerase_of_not_mem_keys h)

end KV

/-- The finite-map store of the Storage Contract. -/
def refStore : Store KV where
  set k v m := (none, m.insert k v)
  get := KV.get
  del k m := (((m.lookup k).isSome, none), m.erase k)
  pset ks vs m := (none, KV.putAll m (ks.zip vs))
  pget ks m := (ks.map fun k => (KV.get k m).1, ks.map fun k => (KV.get k m).2.1, none)
  keys p _ w m :=
    ((KV.withPrefix p m).map Prod.fst, if w then (KV.withPrefix p m).map Prod.snd else [], none)
  flushDB _ := (none, ∅)
  close m := (none, m)

/-! ## Presence of keys -/

/-- A call that may remove `k`: `Del(k)` or `FlushDB`. -/
def Op.removes (k : Bytes) : Op → Bool
  | .del k' => k' == k
  | .flushDB => true
  | _ => false

theorem KV.mem_putAll {k : Bytes} {m : KV} (h : k ∈ m) :
    ∀ ps : List (Bytes × Bytes), k ∈ KV.putAll m ps
  | [] => h
  | _ :: ps => KV.mem_putAll ((AList.mem_insert _).2 (Or.inr h)) ps

/-- The finite-map store keeps a present key through every call that does
    not remove it. -/
theorem refStore_mem_exec {k : Bytes} {m : KV} (h : k ∈ m) :
    ∀ op, op.removes k = false → k ∈ (refStore.exec op m).2
  | .set k' v, _ => (AList.mem_insert _).2 (Or.inr h)
  | .del k', hk => by
    simp only [Op.removes, beq_eq_false_iff_ne, ne_eq] at hk
    simpa [Store.exec, refStore, AList.mem_erase, Ne.symm hk] using h
  | .pset ks vs, _ => KV.mem_putAll h _
  | .get _, _ | .pget _, _ | .keys _ _ _, _ | .close, _ => h
  | .flushDB, hk => by simp [Op.removes] at hk

end KvBench
