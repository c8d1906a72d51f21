/-
  kvbench formalization — histories of concurrent calls on one store, and
  what it means for them to be linearizable with respect to the finite-map
  store.

  * A history records, in real-time order, each caller's invocations and
    returns (`HEvent`); `openOf h c` is the call caller `c` has open at its end.
  * A history with linearization points (`LEvent`) adds `lin c` where caller
    `c`'s open call takes effect; `linRun` checks it against `refStore`:
    each call is invoked while its caller is idle, takes effect once,
    between its invocation and its return, and returns the reply the
    finite-map store gave it at that point.
  * `Linearizable m₀ h`: linearization points can be placed in `h` so that
    the check passes from `m₀`.
  * `Linearizable.delTrues_le`: in a linearizable history, the `Del(k)` calls
    that return `existed = true` are at most the writes of `k` invoked, plus
    one if `k` was present at the start.
-/
import KvBench.Store

namespace KvBench

/-! ## Histories -/

/-- An event of a history: caller `c` invokes `op`, or returns `r` from `op`. -/
inductive HEvent where
  | inv (c : Nat) (op : Op)
  | ret (c : Nat) (op : Op) (r : Reply)
  deriving DecidableEq, Repr

/-- The call caller `c` has open after `e`, given the one it had before. -/
def HEvent.track (c : Nat) (o : Option Op) : HEvent → Option Op
  | .inv c' op => if c' = c then some op else o
  | .ret c' _ _ => if c' = c then none else o

/-- The call caller `c` has open at the end of `h`: its last invocation, unless
    it has returned. -/
def openOf (h : List HEvent) (c : Nat) : Option Op := h.foldl (HEvent.track c) none

@[simp] theorem openOf_nil (c : Nat) : openOf [] c = none := rfl

@[simp] theorem openOf_append (h : List HEvent) (e : HEvent) (c : Nat) :
    openOf (h ++ [e]) c = e.track c (openOf h c) := by
  simp [openOf]

/-- The key of the `Del` caller `c` has open at the end of `h`. -/
def openDel (h : List HEvent) (c : Nat) : Option Bytes :=
  match openOf h c with
  | some (.del k) => some k
  | _ => none

/-- Two of the callers `0, …, n-1` are inside `Del` of one key at the end of `h`. -/
def DelsOverlap (n : Nat) (h : List HEvent) : Prop :=
  ∃ c₁ < n, ∃ c₂ < n, c₁ ≠ c₂ ∧ (openDel h c₁).isSome ∧ openDel h c₁ = openDel h c₂

instance (n : Nat) (h : List HEvent) : Decidable (DelsOverlap n h) := by
  unfold DelsOverlap; infer_instance

theorem delsOverlap_of_open {n : Nat} {h : List HEvent} {c₁ c₂ : Nat} {k : Bytes}
    (h₁ : c₁ < n) (h₂ : c₂ < n) (hne : c₁ ≠ c₂) (ho₁ : openOf h c₁ = some (.del k))
    (ho₂ : openOf h c₂ = some (.del k)) : DelsOverlap n h :=
  ⟨c₁, h₁, c₂, h₂, hne, by simp [openDel, ho₁], by simp [openDel, ho₁, ho₂]⟩

/-! ## Linearization points -/

/-- Where a caller's current call stands in a history with linearization
    points: none open, invoked, or applied to the map with reply `r`. -/
inductive Pend where
  | idle
  | invoked (op : Op)
  | applied (op : Op) (r : Reply)
  deriving DecidableEq, Repr

/-- An event of a history with linearization points: `lin c` is where caller
    `c`'s open call takes effect. -/
inductive LEvent where
  | ev (e : HEvent)
  | lin (c : Nat)
  deriving DecidableEq, Repr

/-- The history event, if this is one. -/
def LEvent.visible : LEvent → Option HEvent
  | .ev e => some e
  | .lin _ => none

/-- One event checked against the finite-map store `m` and the callers'
    pending calls `p`. -/
def linStep : KV × List Pend → LEvent → Option (KV × List Pend)
  | (m, p), .ev (.inv c op) => if p[c]? = some .idle then some (m, p.set c (.invoked op)) else none
  | (m, p), .lin c =>
    match p[c]? with
    | some (.invoked op) => some ((refStore.exec op m).2, p.set c (.applied op (refStore.exec op m).1))
    | _ => none
  | (m, p), .ev (.ret c op r) =>
    if p[c]? = some (.applied op r) then some (m, p.set c .idle) else none

theorem linStep_inv {m : KV} {p : List Pend} {c : Nat} (hc : p[c]? = some .idle) (op : Op) :
    linStep (m, p) (.ev (.inv c op)) = some (m, p.set c (.invoked op)) := by
  simp [linStep, hc]

theorem linStep_lin {m : KV} {p : List Pend} {c : Nat} {op : Op} (hc : p[c]? = some (.invoked op)) :
    linStep (m, p) (.lin c) =
      some ((refStore.exec op m).2, p.set c (.applied op (refStore.exec op m).1)) := by
  simp [linStep, hc]

theorem linStep_ret {m : KV} {p : List Pend} {c : Nat} {op : Op} {r : Reply}
    (hc : p[c]? = some (.applied op r)) :
    linStep (m, p) (.ev (.ret c op r)) = some (m, p.set c .idle) := by
  simp [linStep, hc]

/-- Checks a history with linearization points event by event. -/
def linRun : KV × List Pend → List LEvent → Option (KV × List Pend)
  | x, [] => some x
  | x, e :: es => (linStep x e).bind (linRun · es)

theorem linRun_append (x : KV × List Pend) (es₁ es₂ : List LEvent) :
    linRun x (es₁ ++ es₂) = (linRun x es₁).bind (linRun · es₂) := by
  induction es₁ generalizing x with
  | nil => rfl
  | cons e es ih => simp [linRun, ih, Option.bind_assoc]

theorem linRun_snoc {x x' : KV × List Pend} {es : List LEvent} (h : linRun x es = some x')
    (e : LEvent) : linRun x (es ++ [e]) = linStep x' e := by
  simp [linRun_append, h, linRun]

/-- **Linearizability.** The history `h` of calls by callers `0, …, n-1` on a
    store holding `m₀` can be given linearization points that pass `linRun`:
    every call takes effect at one point between its invocation and its
    return, and returns what the finite-map store replies at that point. -/
def Linearizable (m₀ : KV) (h : List HEvent) : Prop :=
  ∃ n h', h'.filterMap LEvent.visible = h ∧ (linRun (m₀, List.replicate n .idle) h').isSome

/-! ## `Del` reports each write at most once -/

/-- `Del(k)`. -/
def Op.isDel (k : Bytes) : Op → Bool
  | .del k' => k' == k
  | _ => false

/-- A call that may make `k` present: `Set(k, _)`, or `PSet` with `k` among
    its keys. -/
def Op.writes (k : Bytes) : Op → Bool
  | .set k' _ => k' == k
  | .pset ks _ => ks.contains k
  | _ => false

/-- `existed` of a `Del`'s reply. -/
def Reply.existed : Reply → Bool
  | .del b _ => b
  | _ => false

/-- `Del(k)` returning `existed = true`. -/
def HEvent.delTrue (k : Bytes) : HEvent → Bool
  | .ret _ op r => op.isDel k && r.existed
  | _ => false

/-- The invocation of a write of `k`. -/
def HEvent.invWrites (k : Bytes) : HEvent → Bool
  | .inv _ op => op.writes k
  | _ => false

/-- A `Del(k)` applied with `existed = true`, not yet returned. -/
def Pend.delTrue (k : Bytes) : Pend → Bool
  | .applied op r => op.isDel k && r.existed
  | _ => false

/-- A write of `k` invoked, not yet applied. -/
def Pend.writes (k : Bytes) : Pend → Bool
  | .invoked op => op.writes k
  | _ => false

/-- What may still turn into a `Del(k)` returning `true`: the applied ones
    not yet returned, and `k`'s presence; each write of `k` not yet applied
    may add one. -/
def potential (k : Bytes) (x : KV × List Pend) : Nat :=
  x.2.countP (Pend.delTrue k) + (if k ∈ x.1 then 1 else 0) + x.2.countP (Pend.writes k)

theorem mem_putAll_of_not_mem {k : Bytes} :
    ∀ {m : KV} {ps : List (Bytes × Bytes)}, k ∉ ps.map Prod.fst → k ∈ KV.putAll m ps → k ∈ m
  | _, [], _, h => h
  | _, p :: ps, hk, h => by
    simp only [List.map_cons, List.mem_cons, not_or] at hk
    exact ((AList.mem_insert _).1 (mem_putAll_of_not_mem hk.2 h)).resolve_left hk.1

/-- Applying a call to the finite-map store: a `Del(k)` that reports `true`
    uses up `k`'s presence, which only a write of `k` restores. -/
theorem exec_potential (k : Bytes) (op : Op) (m : KV) :
    (if (op.isDel k && (refStore.exec op m).1.existed) then 1 else 0) +
        (if k ∈ (refStore.exec op m).2 then 1 else 0) ≤
      (if k ∈ m then 1 else 0) + (if op.writes k then 1 else 0) := by
  cases op with
  | set k' v =>
    by_cases hk : k' = k
    · subst hk; simp [Store.exec, refStore, Op.isDel, Op.writes]
    · simp [Store.exec, refStore, Op.isDel, Op.writes, AList.mem_insert, Ne.symm hk, hk]
  | del k' =>
    by_cases hk : k' = k
    · subst hk
      have hs : (m.lookup k').isSome = decide (k' ∈ m) := by
        rw [Bool.eq_iff_iff, AList.lookup_isSome, decide_eq_true_iff]
      by_cases hm : k' ∈ m <;> simp [Store.exec, refStore, Op.isDel, Op.writes, Reply.existed, hs, hm]
    · simp [Store.exec, refStore, Op.isDel, Op.writes, AList.mem_erase, Ne.symm hk, hk]
  | pset ks vs =>
    by_cases hk : k ∈ ks
    · simp [Store.exec, refStore, Op.isDel, Op.writes, hk]
      split_ifs <;> omega
    · have hz : k ∉ (ks.zip vs).map Prod.fst := fun h => by
        obtain ⟨⟨a, b⟩, hab, rfl⟩ := List.mem_map.1 h
        exact hk (List.of_mem_zip hab).1
      by_cases h : k ∈ KV.putAll m (ks.zip vs)
      · simp [Store.exec, refStore, Op.isDel, Op.writes, hk, h, mem_putAll_of_not_mem hz h]
      · simp [Store.exec, refStore, Op.isDel, Op.writes, h]
  | flushDB => simp [Store.exec, refStore, Op.isDel]
  | get | pget | keys | close => simp [Store.exec, refStore, Op.isDel, Op.writes]

theorem countP_set_add {α : Type} (q : α → Bool) {p : List α} {c : Nat} (hc : c < p.length)
    (a : α) : (p.set c a).countP q + (if q p[c] then 1 else 0) = p.countP q + (if q a then 1 else 0) := by
  have : (if q p[c] then 1 else 0) ≤ p.countP q := by
    split_ifs with h
    · exact List.countP_pos_iff.2 ⟨_, List.getElem_mem hc, h⟩
    · exact Nat.zero_le _
  rw [List.countP_set _ _ _ _ hc]; omega

/-- One checked event: the `Del(k)` it returns with `true` and the potential
    left after it are paid for by the potential before it and the writes of
    `k` it invokes. -/
theorem linStep_potential (k : Bytes) {x x' : KV × List Pend} {e : LEvent}
    (h : linStep x e = some x') :
    e.visible.toList.countP (HEvent.delTrue k) + potential k x' ≤
      potential k x + e.visible.toList.countP (HEvent.invWrites k) := by
  obtain ⟨m, p⟩ := x
  rcases e with (⟨c, op⟩ | ⟨c, op, r⟩) | c
  · -- an invocation
    simp only [linStep] at h
    split_ifs at h with hc
    cases h
    obtain ⟨hc, hpc⟩ := List.getElem?_eq_some_iff.1 hc
    have h₁ := countP_set_add (Pend.delTrue k) hc (.invoked op)
    have h₂ := countP_set_add (Pend.writes k) hc (.invoked op)
    simp [hpc, potential, LEvent.visible, Pend.delTrue, Pend.writes, HEvent.delTrue,
      HEvent.invWrites, List.countP_singleton] at h₁ h₂ ⊢
    omega
  · -- a return
    simp only [linStep] at h
    split_ifs at h with hc
    cases h
    obtain ⟨hc, hpc⟩ := List.getElem?_eq_some_iff.1 hc
    have h₁ := countP_set_add (Pend.delTrue k) hc .idle
    have h₂ := countP_set_add (Pend.writes k) hc .idle
    simp [hpc, potential, LEvent.visible, Pend.delTrue, Pend.writes, HEvent.delTrue,
      HEvent.invWrites, List.countP_singleton] at h₁ h₂ ⊢
    omega
  · -- a linearization point
    simp only [linStep] at h
    split at h
    · rename_i op hc
      cases h
      obtain ⟨hc, hpc⟩ := List.getElem?_eq_some_iff.1 hc
      have h₀ := exec_potential k op m
      have h₁ := countP_set_add (Pend.delTrue k) hc (.applied op (refStore.exec op m).1)
      have h₂ := countP_set_add (Pend.writes k) hc (.applied op (refStore.exec op m).1)
      simp [hpc, potential, LEvent.visible, Pend.delTrue, Pend.writes] at h₀ h₁ h₂ ⊢
      omega
    · cases h

/-- Over a checked run, the same account: returned `Del(k)` with `true` and
    the final potential against the initial potential and the writes of `k`
    invoked. -/
theorem linRun_potential (k : Bytes) :
    ∀ {x x' : KV × List Pend} (es : List LEvent), linRun x es = some x' →
      (es.filterMap LEvent.visible).countP (HEvent.delTrue k) + potential k x' ≤
        potential k x + (es.filterMap LEvent.visible).countP (HEvent.invWrites k)
  | _, _, [], h => by cases h; simp
  | x, x', e :: es, h => by
    obtain ⟨y, hy, h⟩ := Option.bind_eq_some.1 h
    have h₁ := linStep_potential k hy
    have h₂ := linRun_potential k es h
    have he : ∀ q : HEvent → Bool, ((e :: es).filterMap LEvent.visible).countP q =
        e.visible.toList.countP q + (es.filterMap LEvent.visible).countP q := by
      intro q; cases e <;> simp [LEvent.visible, List.countP_cons]; omega
    rw [he, he]
    omega

/-- **`Del` reports each write at most once.** In a history linearizable
    from `m₀`, the `Del(k)` calls that return `existed = true` number at most
    the writes of `k` invoked, plus one if `k` is in `m₀`. -/
theorem Linearizable.delTrues_le {m₀ : KV} {h : List HEvent} (hl : Linearizable m₀ h)
    (k : Bytes) :
    h.countP (HEvent.delTrue k) ≤ (if k ∈ m₀ then 1 else 0) + h.countP (HEvent.invWrites k) := by
  obtain ⟨n, h', rfl, hs⟩ := hl
  obtain ⟨x', hx'⟩ := Option.isSome_iff_exists.1 hs
  have := linRun_potential k h' hx'
  simp only [potential, List.countP_replicate, Pend.delTrue, Pend.writes, if_false,
    Bool.false_eq_true] at this
  omega

end KvBench
