import Cascette.Agent.Queue
import Cascette.Lib.Reach

/-!
# Concurrent insertions

An insertion first looks for an active operation of its product and inserts its row in a second
statement. Between the two the table may change: another insertion for the same product that has
passed its own look inserts its row as well. The table has no constraint that refuses the second
one.
-/

namespace Cascette.Agent

open Lib List
open Relation (ReflTransGen)

variable {Id Value Time : Type}

/-! ## What the look finds -/

/-- No operation of the product is active. -/
def Ledger.Free (ledger : Ledger Id Time) (productCode : String) : Prop :=
  ∀ entry ∈ ledger, entry.productCode = productCode → entry.state.isTerminal

theorem Database.Holds.findActiveForProduct_iff {texts : Texts Id Value Time} {db : Database}
    {ledger : Ledger Id Time} (h : db.Holds texts ledger) (order : OrderBy Row) (now : Time)
    (productCode : String) :
    db.findActiveForProduct texts order now productCode = .ok none ↔ ledger.Free productCode := by
  have hFree : db.operations.filter (fun row => row.productCode = productCode ∧
      row.state ∉ ["complete", "failed", "cancelled"]) = [] ↔ ledger.Free productCode := by
    rw [filter_eq_nil_iff, Ledger.Free]
    obtain ⟨hRows, -⟩ := h
    generalize db.operations = rows at hRows ⊢
    induction hRows with
    | nil => exact iff_of_true nofun nofun
    | @cons row entry _ _ hRep _ ih =>
      rw [forall_mem_cons, forall_mem_cons, ih, decide_eq_true_eq, hRep.productCode, hRep.state]
      cases entry.state <;> simp [OperationState.fmt, OperationState.isTerminal]
  rw [← hFree, ← length_eq_zero_iff,
    ← (order.perm (fun row => OrderDual.toDual row.createdAt) _).length_eq, length_eq_zero_iff,
    Database.findActiveForProduct]
  cases order.sort (fun row : Row => OrderDual.toDual row.createdAt) _ with
  | nil => exact iff_of_true rfl rfl
  | cons row rest =>
    refine iff_of_false ?_ (cons_ne_nil _ _)
    dsimp only [head?_cons]
    cases rowToOperation texts now row <;> exact nofun

/-! ## Interleavings -/

inductive InsertPhase
  | called
  | looked
  | returned
  deriving DecidableEq

structure InsertCall (Id Time : Type) where
  operation : Entry Id Time
  phase : InsertPhase

structure Insertions (Id Time : Type) where
  ledger : Ledger Id Time
  calls : List (InsertCall Id Time)

/-- One statement of a call, or an update that stores a state over another one that allows it. The
products of the operations are registered. -/
inductive Insertions.Step [DecidableEq Id] (Allowed : OperationState → OperationState → Prop) :
    Insertions Id Time → Insertions Id Time → Prop
  | look {ledger front operation back} (hFree : ledger.Free operation.productCode) :
      Step Allowed ⟨ledger, front ++ ⟨operation, .called⟩ :: back⟩
        ⟨ledger, front ++ ⟨operation, .looked⟩ :: back⟩
  | refuse {ledger front operation back} (hActive : ¬ ledger.Free operation.productCode) :
      Step Allowed ⟨ledger, front ++ ⟨operation, .called⟩ :: back⟩
        ⟨ledger, front ++ ⟨operation, .returned⟩ :: back⟩
  | insert {ledger front operation back} (now : Time)
      (hNew : operation.operationId ∉ ledger.map Entry.operationId) :
      Step Allowed ⟨ledger, front ++ ⟨operation, .looked⟩ :: back⟩
        ⟨ledger ++ [{ operation with createdAt := now }], front ++ ⟨operation, .returned⟩ :: back⟩
  | insertError {ledger front operation back} :
      Step Allowed ⟨ledger, front ++ ⟨operation, .looked⟩ :: back⟩
        ⟨ledger, front ++ ⟨operation, .returned⟩ :: back⟩
  | update {ledger calls} (operationId : Id) (state : OperationState) (priority : Priority)
      (hAllowed : ∀ entry ∈ ledger, entry.operationId = operationId → Allowed entry.state state) :
      Step Allowed ⟨ledger, calls⟩ ⟨ledger.set operationId state priority, calls⟩

/-- Of two operations of one product one is terminal. -/
def Ledger.OnePerProduct (ledger : Ledger Id Time) : Prop :=
  ledger.Pairwise fun a b => a.productCode = b.productCode → a.state.isTerminal ∨ b.state.isTerminal

namespace Ledger

variable [DecidableEq Id] {ledger : Ledger Id Time} {operationId : Id} {state : OperationState}
  {priority : Priority}

theorem mem_set {entry : Entry Id Time} (h : entry ∈ ledger.set operationId state priority) :
    ∃ old ∈ ledger, entry.productCode = old.productCode ∧
      (old.operationId ≠ operationId ∧ entry.state = old.state ∨
        old.operationId = operationId ∧ entry.state = state) := by
  obtain ⟨old, hOld, rfl⟩ := mem_map.mp h
  refine ⟨old, hOld, ?_⟩
  split
  · next hId => exact ⟨rfl, .inr ⟨hId, rfl⟩⟩
  · next hId => exact ⟨rfl, .inl ⟨hId, rfl⟩⟩

theorem Free.set {productCode : String} (h : ledger.Free productCode)
    (hKeep : ∀ entry ∈ ledger, entry.operationId = operationId → entry.state.isTerminal →
      state.isTerminal) : (ledger.set operationId state priority).Free productCode := by
  intro entry hEntry hProduct
  obtain ⟨old, hOld, hSame, hState⟩ := mem_set hEntry
  have hTerminal := h old hOld (hSame ▸ hProduct)
  rcases hState with ⟨-, hState⟩ | ⟨hId, hState⟩
  · exact hState ▸ hTerminal
  · exact hState ▸ hKeep old hOld hId hTerminal

theorem OnePerProduct.set (h : ledger.OnePerProduct)
    (hKeep : ∀ entry ∈ ledger, entry.operationId = operationId → entry.state.isTerminal →
      state.isTerminal) : (ledger.set operationId state priority).OnePerProduct := by
  have hEntry : ∀ entry ∈ ledger, entry.state.isTerminal →
      (if entry.operationId = operationId then { entry with state, priority }
        else entry : Entry Id Time).state.isTerminal := by
    intro entry hMem hTerminal
    split
    · next hId => exact hKeep entry hMem hId hTerminal
    · exact hTerminal
  have hProduct : ∀ entry : Entry Id Time,
      (if entry.operationId = operationId then { entry with state, priority }
        else entry : Entry Id Time).productCode = entry.productCode := by
    intro entry
    split <;> rfl
  refine pairwise_map.mpr (List.Pairwise.imp_of_mem (fun {a b} ha hb hab hSame => ?_) h)
  rw [hProduct, hProduct] at hSame
  exact (hab hSame).imp (hEntry a ha) (hEntry b hb)

end Ledger

namespace Insertions

variable [DecidableEq Id] {Allowed : OperationState → OperationState → Prop}
  {s t : Insertions Id Time} {ledger : Ledger Id Time}

/-! ## Calls for different products -/

/-- The calls are for different products, and a call that has looked finds its product still free
when it inserts. -/
structure Guarded (s : Insertions Id Time) : Prop where
  ledger : s.ledger.OnePerProduct
  calls : Ledger.OnePerProduct (s.calls.map InsertCall.operation)
  looked : ∀ call ∈ s.calls, call.phase = .looked → ¬ call.operation.state.isTerminal →
    s.ledger.Free call.operation.productCode

omit [DecidableEq Id] in
theorem Guarded.of_phase {front back : List (InsertCall Id Time)} {operation : Entry Id Time}
    {phase phase' : InsertPhase} (h : Guarded ⟨ledger, front ++ ⟨operation, phase⟩ :: back⟩)
    (hPhase : phase' = .looked → ¬ operation.state.isTerminal → ledger.Free operation.productCode) :
    Guarded ⟨ledger, front ++ ⟨operation, phase'⟩ :: back⟩ := by
  refine ⟨h.ledger, ?_, ?_⟩
  · simpa using h.calls
  · intro call hCall hLooked hActive
    rcases mem_append.mp hCall with hCall | hCall
    · exact h.looked call (mem_append_left _ hCall) hLooked hActive
    · rcases mem_cons.mp hCall with rfl | hCall
      · exact hPhase hLooked hActive
      · exact h.looked call (mem_append_right _ (mem_cons_of_mem _ hCall)) hLooked hActive

theorem Guarded.step (hTerminal : ∀ old new, Allowed old new → old.isTerminal → new.isTerminal)
    (h : s.Guarded) (hStep : Step Allowed s t) : t.Guarded := by
  cases hStep with
  | look hFree => exact h.of_phase fun _ _ => hFree
  | refuse _ | insertError => exact h.of_phase nofun
  | @insert ledger front operation back now _ =>
    have hMem : (⟨operation, .looked⟩ : InsertCall Id Time) ∈
        front ++ ⟨operation, .looked⟩ :: back :=
      mem_append_right _ mem_cons_self
    have hReturned : Guarded ⟨ledger, front ++ ⟨operation, .returned⟩ :: back⟩ := h.of_phase nofun
    refine ⟨?_, hReturned.calls, ?_⟩
    · refine pairwise_append.mpr ⟨h.ledger, pairwise_singleton _ _, ?_⟩
      intro entry hEntry new hNew hSame
      rw [mem_singleton.mp hNew] at hSame ⊢
      by_cases hOwn : operation.state.isTerminal
      · exact .inr hOwn
      · exact .inl (h.looked _ hMem rfl hOwn entry hEntry hSame)
    · intro call hCall hLooked hActive entry hEntry hSame
      rcases mem_append.mp hEntry with hEntry | hEntry
      · exact hReturned.looked call hCall hLooked hActive entry hEntry hSame
      · -- the new row is for another product than any call that has looked, or is terminal
        rw [mem_singleton.mp hEntry] at hSame ⊢
        have hCalls := h.calls
        rw [map_append, map_cons, Ledger.OnePerProduct, pairwise_append, pairwise_cons] at hCalls
        obtain ⟨-, ⟨hBack, -⟩, hFront⟩ := hCalls
        rcases mem_append.mp hCall with hCall | hCall
        · exact (hFront _ (mem_map_of_mem hCall) _ mem_cons_self hSame.symm).resolve_left
            hActive
        · rcases mem_cons.mp hCall with rfl | hCall
          · cases hLooked
          · exact (hBack _ (mem_map_of_mem hCall) hSame).resolve_right hActive
  | update operationId state priority hAllowed =>
    have hKeep := fun entry hEntry hId => hTerminal _ _ (hAllowed entry hEntry hId)
    exact ⟨h.ledger.set hKeep, h.calls,
      fun call hCall hLooked hActive => (h.looked call hCall hLooked hActive).set hKeep⟩

/-! ## Two calls for one product -/

variable (hTransitions : ∀ old new, old.canTransitionTo new → Allowed old new)
include hTransitions

/-- An update ends the active operation of a product, if there is one. -/
theorem exists_free (hLedger : ledger.OnePerProduct) (hIds : (ledger.map Entry.operationId).Nodup)
    (productCode : String) (calls : List (InsertCall Id Time)) :
    ∃ ledger' : Ledger Id Time, ledger'.Free productCode ∧
      ledger'.map Entry.operationId = ledger.map Entry.operationId ∧
      ReflTransGen (Step Allowed) ⟨ledger, calls⟩ ⟨ledger', calls⟩ := by
  by_cases hFree : ledger.Free productCode
  · exact ⟨ledger, hFree, rfl, .refl⟩
  simp only [Ledger.Free, not_forall] at hFree
  obtain ⟨active, hActive, hProduct, hState⟩ := hFree
  have hOnly : ∀ entry ∈ ledger, entry.operationId = active.operationId → entry = active :=
    fun entry hEntry hId => inj_on_of_nodup_map hIds hEntry hActive hId
  refine ⟨ledger.set active.operationId .cancelled active.priority, ?_,
    Ledger.map_operationId_set _ _ _ _, .single (.update _ _ _ ?_)⟩
  · intro entry hEntry hSame
    obtain ⟨old, hOld, hCode, ⟨hId, hNew⟩ | ⟨-, hNew⟩⟩ := Ledger.mem_set hEntry
    · rw [hNew]
      have hSymm : Std.Symm fun a b : Entry Id Time =>
          a.productCode = b.productCode → a.state.isTerminal ∨ b.state.isTerminal :=
        ⟨fun a b hab hEq => (hab hEq.symm).symm⟩
      have hPair := List.Pairwise.forall hLedger hOld hActive
        fun hEq => hId (congrArg Entry.operationId hEq)
      exact (hPair (by rw [← hCode, hSame, hProduct])).resolve_right hState
    · rw [hNew]
      rfl
  · intro entry hEntry hId
    rw [hOnly entry hEntry hId]
    refine hTransitions _ _ ?_
    revert hState
    cases active.state <;> decide

/-- Both calls look before either of them inserts. -/
theorem exists_two_active
    (hLedger : ledger.OnePerProduct) {front middle back : List (InsertCall Id Time)}
    {first second : Entry Id Time} (hProduct : first.productCode = second.productCode)
    (hFirst : ¬ first.state.isTerminal) (hSecond : ¬ second.state.isTerminal)
    (hIds : (ledger.map Entry.operationId ++ [first.operationId, second.operationId]).Nodup)
    (now : Time) :
    ∃ s, ReflTransGen (Step Allowed)
        ⟨ledger, front ++ ⟨first, .called⟩ :: (middle ++ ⟨second, .called⟩ :: back)⟩ s ∧
      ¬ s.ledger.OnePerProduct := by
  let first₁ := { first with createdAt := now }
  let second₁ := { second with createdAt := now }
  obtain ⟨hOld, hNew, hDisjoint⟩ := nodup_append.mp hIds
  obtain ⟨ledger', hFree, hSameIds, hEnd⟩ := exists_free hTransitions hLedger hOld
    first.productCode (front ++ ⟨first, .called⟩ :: (middle ++ ⟨second, .called⟩ :: back))
  have hFirstNew : first.operationId ∉ ledger'.map Entry.operationId := by
    rw [hSameIds]
    exact fun hMem => hDisjoint _ hMem _ mem_cons_self rfl
  have hSecondNew : second.operationId ∉ (ledger' ++ [first₁]).map Entry.operationId := by
    rw [map_append, hSameIds]
    intro hMem
    rcases mem_append.mp hMem with hMem | hMem
    · exact hDisjoint _ hMem second.operationId (by simp) rfl
    · rw [map_singleton, mem_singleton] at hMem
      simp [hMem, first₁] at hNew
  have hLookFirst : Step Allowed
      ⟨ledger', front ++ ⟨first, .called⟩ :: (middle ++ ⟨second, .called⟩ :: back)⟩
      ⟨ledger', front ++ ⟨first, .looked⟩ :: (middle ++ ⟨second, .called⟩ :: back)⟩ :=
    .look hFree
  have hLookSecond : Step Allowed
      ⟨ledger', (front ++ ⟨first, .looked⟩ :: middle) ++ ⟨second, .called⟩ :: back⟩
      ⟨ledger', (front ++ ⟨first, .looked⟩ :: middle) ++ ⟨second, .looked⟩ :: back⟩ :=
    .look (hProduct ▸ hFree)
  have hInsertFirst : Step Allowed
      ⟨ledger', front ++ ⟨first, .looked⟩ :: (middle ++ ⟨second, .looked⟩ :: back)⟩
      ⟨ledger' ++ [first₁], front ++ ⟨first, .returned⟩ :: (middle ++ ⟨second, .looked⟩ :: back)⟩ :=
    .insert now hFirstNew
  have hInsertSecond : Step Allowed
      ⟨ledger' ++ [first₁], (front ++ ⟨first, .returned⟩ :: middle) ++ ⟨second, .looked⟩ :: back⟩
      ⟨ledger' ++ [first₁] ++ [second₁],
        (front ++ ⟨first, .returned⟩ :: middle) ++ ⟨second, .returned⟩ :: back⟩ :=
    .insert now hSecondNew
  rw [append_assoc, cons_append] at hLookSecond hInsertSecond
  rw [append_assoc front, cons_append] at hLookSecond
  refine ⟨_, hEnd.trans (.head hLookFirst (.head hLookSecond (.head hInsertFirst
    (.single hInsertSecond)))), ?_⟩
  intro hOne
  have hPair := (pairwise_append.mp hOne).2.2 first₁ (by simp) second₁ (by simp) hProduct
  exact hPair.elim hFirst hSecond

omit hTransitions

/-- At most one operation per product is active in every interleaving exactly if no two of the calls
insert active operations for one product. -/
theorem onePerProduct_iff (hTransitions : ∀ old new, old.canTransitionTo new → Allowed old new)
    (hTerminal : ∀ old new, Allowed old new → old.isTerminal → new.isTerminal)
    (hLedger : ledger.OnePerProduct) (operations : Ledger Id Time)
    (hIds : (ledger.map Entry.operationId ++ operations.map Entry.operationId).Nodup) :
    (∀ s, ReflTransGen (Step Allowed) ⟨ledger, operations.map fun e => ⟨e, .called⟩⟩ s →
      s.ledger.OnePerProduct) ↔ operations.OnePerProduct := by
  constructor
  · intro h
    by_contra hTwo
    obtain ⟨front, first, middle, second, back, rfl, hPair⟩ := exists_append_of_not_pairwise hTwo
    simp only [not_forall, not_or] at hPair
    obtain ⟨hProduct, hFirst, hSecond⟩ := hPair
    have hPairIds : (ledger.map Entry.operationId ++
        [first.operationId, second.operationId]).Nodup := by
      refine hIds.sublist (Sublist.append_left ?_ _)
      simp only [map_append, map_cons]
      exact ((singleton_sublist.mpr (by simp)).cons_cons _).trans (sublist_append_right _ _)
    obtain ⟨s, hRun, hNot⟩ := exists_two_active hTransitions hLedger hProduct hFirst hSecond
      hPairIds first.createdAt
    refine hNot (h s ?_)
    simpa only [map_append, map_cons] using hRun
  · intro h s hRun
    have hStart : Guarded ⟨ledger, operations.map fun e => ⟨e, .called⟩⟩ := by
      refine ⟨hLedger, ?_, ?_⟩
      · rw [map_map]
        exact (map_id operations).symm ▸ h
      · intro call hCall hLooked
        obtain ⟨operation, -, rfl⟩ := mem_map.mp hCall
        cases hLooked
    exact (run_keeps (fun _ _ h hStep => h.step hTerminal hStep) hRun hStart).ledger

/-- An update stores a permitted next state, or the state that is stored. -/
def permitted (old new : OperationState) : Prop := old.canTransitionTo new ∨ new = old

theorem isTerminal_of_permitted (old new : OperationState) (h : permitted old new)
    (hTerminal : old.isTerminal) : new.isTerminal := by
  rcases h with hMove | rfl
  · rw [OperationState.not_canTransitionTo hTerminal] at hMove
    cases hMove
  · exact hTerminal

/-- Two calls for different products. -/
theorem onePerProduct_sample :
    [false, true].Nodup ∧ ∀ s, ReflTransGen (Step permitted) ⟨[],
        [⟨(sampleOperation false "wow" .install).entry, .called⟩,
          ⟨(sampleOperation true "wow_classic" .update).entry, .called⟩]⟩ s →
      s.ledger.OnePerProduct := by
  refine ⟨by decide, ?_⟩
  refine (onePerProduct_iff (fun _ _ => .inl) isTerminal_of_permitted .nil
    [(sampleOperation false "wow" .install).entry,
      (sampleOperation true "wow_classic" .update).entry] ?_).mpr ?_
  · exact (by decide : [false, true].Nodup)
  · exact pairwise_pair.mpr fun hSame => absurd hSame (by decide)

/-- Two calls for one product can both succeed. -/
theorem onePerProduct_refuted :
    ∃ s, ReflTransGen (Step permitted) ⟨[],
        [⟨(sampleOperation false "wow" .install).entry, .called⟩,
          ⟨(sampleOperation true "wow" .update).entry, .called⟩]⟩ s ∧
      ¬ s.ledger.OnePerProduct := by
  have hTwo : ∃ s, ReflTransGen (Step permitted) ⟨[],
      [] ++ ⟨(sampleOperation false "wow" .install).entry, .called⟩ ::
        ([] ++ ⟨(sampleOperation true "wow" .update).entry, .called⟩ :: [])⟩ s ∧
      ¬ s.ledger.OnePerProduct :=
    exists_two_active (fun _ _ => .inl) .nil rfl nofun nofun (by decide : [false, true].Nodup) ()
  exact hTwo

end Insertions

end Cascette.Agent
