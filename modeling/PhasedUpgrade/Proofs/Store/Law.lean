import PhasedUpgrade.Store.Memory
import PhasedUpgrade.Store.Watched

/-!
# Laws of stores

What a run relies on: a write takes place or fails without effect, a read changes nothing, and what
is read is what was written last. Any call may fail, so a store that refuses some of its writes, by
whatever plan, is lawful too. A store in a directory reads back what the text of a record tells;
what it goes through with records that their texts tell wholly, a store in memory goes through as
well.
-/

namespace PhasedUpgrade

/-- What a store holds: the latest record and the latest journal of each execution. -/
structure Holdings where
  execution? : ExecutionId → Option Execution
  journal : ExecutionId → Journal

namespace Holdings

def empty : Holdings := ⟨fun _ => none, fun _ => .empty⟩

def put (holdings : Holdings) (execution : Execution) : Holdings :=
  { holdings with execution? := fun id =>
      if id = execution.id then some execution else holdings.execution? id }

def putJournal (holdings : Holdings) (id : ExecutionId) (journal : Journal) : Holdings :=
  { holdings with journal := fun other => if other = id then journal else holdings.journal other }

def settled (written unwritten : Holdings) : Except StoreError Unit → Holdings
  | .ok () => written
  | .error _ => unwritten

end Holdings

/-- A store whose writes take place or fail without effect, and that reads what was written. -/
class LawfulStore (σ : Type) extends Store σ where
  holdings : σ → Holdings
  holdings_save (execution : Execution) (store : σ) :
    holdings (Store.save execution store).2 =
      ((holdings store).put execution).settled (holdings store) (Store.save execution store).1
  holdings_saveJournal (id : ExecutionId) (journal : Journal) (store : σ) :
    holdings (Store.saveJournal id journal store).2 =
      ((holdings store).putJournal id journal).settled (holdings store)
        (Store.saveJournal id journal store).1
  holdings_load (id : ExecutionId) (store : σ) :
    holdings (Store.load id store).2 = holdings store
  holdings_mostRecent (kind : ExecutionKind) (store : σ) :
    holdings (Store.mostRecent kind store).2 = holdings store
  holdings_loadJournal (id : ExecutionId) (store : σ) :
    holdings (Store.loadJournal id store).2 = holdings store
  eq_of_load {id : ExecutionId} {store : σ} {found : Option Execution} :
    (Store.load id store).1 = .ok found → (holdings store).execution? id = found
  /-- Which of the stored executions is found does not matter to the runs themselves. -/
  stored_of_mostRecent {kind : ExecutionKind} {store : σ} {found : Execution} :
    (Store.mostRecent kind store).1 = .ok (some found) →
      (holdings store).execution? found.id = some found
  eq_of_loadJournal {id : ExecutionId} {store : σ} {found : Journal} :
    (Store.loadJournal id store).1 = .ok found → (holdings store).journal id = found

/-! ## Stores in memory -/

theorem Execution.mem_of_newest? {executions : List Execution} {found : Execution}
    (h : newest? executions = some found) : found ∈ executions := by
  induction executions generalizing found with
  | nil => simp [newest?] at h
  | cons execution rest ih =>
      simp only [newest?] at h
      cases hr : newest? rest with
      | none =>
          rw [hr] at h
          have same : execution = found := Option.some.inj h
          simp [same]
      | some other =>
          rw [hr] at h
          by_cases newer : execution.isNewer other
          · have same : execution = found := by simpa [newer] using h
            simp [same]
          · have same : other = found := by simpa [newer] using h
            exact List.mem_cons_of_mem _ (same ▸ ih hr)

namespace MemoryStore

theorem find?_put (store : MemoryStore) (execution : Execution) (id : ExecutionId) :
    (store.put execution).find? id =
      if id = execution.id then some execution else store.find? id := by
  unfold find? put replaced
  by_cases same : id = execution.id
  · simp [same]
  · have kept : (store.executions.filter fun other => decide (other.id ≠ execution.id)).find?
        (fun other => decide (other.id = id)) =
          store.executions.find? fun other => decide (other.id = id) := by
      rw [List.find?_filter]
      congr 1
      funext other
      by_cases h : other.id = id <;> simp [h, same]
    rw [List.find?_cons_of_neg (by simpa using Ne.symm same), kept, if_neg same]

theorem find?_eq_of_mem {store : MemoryStore} {execution : Execution}
    (h : execution ∈ store.executions) : store.find? execution.id = some execution := by
  have key : ∀ executions : List Execution, (executions.map Execution.id).Nodup →
      execution ∈ executions → executions.find? (·.id = execution.id) = some execution := by
    intro executions nodup mem
    induction executions with
    | nil => simp at mem
    | cons head rest ih =>
        obtain ⟨apart, nodup⟩ := List.nodup_cons.mp nodup
        rcases List.mem_cons.mp mem with rfl | mem
        · simp
        · have differ : head.id ≠ execution.id :=
            fun same => apart (same ▸ List.mem_map_of_mem mem)
          rw [List.find?_cons_of_neg (by simpa using differ)]
          exact ih nodup mem
  exact key store.executions store.distinct h

theorem lookup_filter_ne {id other : ExecutionId} (differ : other ≠ id)
    (journals : List (ExecutionId × Journal)) :
    (journals.filter fun entry => decide (entry.1 ≠ id)).lookup other = journals.lookup other := by
  induction journals with
  | nil => rfl
  | cons entry rest ih =>
      obtain ⟨name, journal⟩ := entry
      by_cases here : name = id
      · subst here
        have apart : (other == name) = false := by simpa using differ
        rw [List.filter_cons_of_neg (by simp), List.lookup_cons, apart, ih]
      · rw [List.filter_cons_of_pos (by simpa using here), List.lookup_cons, List.lookup_cons, ih]

theorem journal_putJournal (store : MemoryStore) (id other : ExecutionId) (journal : Journal) :
    (store.putJournal id journal).journal other =
      if other = id then journal else store.journal other := by
  unfold MemoryStore.journal putJournal
  by_cases same : other = id
  · simp [same]
  · have apart : (other == id) = false := by simpa using same
    rw [List.lookup_cons, apart, if_neg same]
    exact congrArg (fun found => Option.getD found Journal.empty) (lookup_filter_ne same _)

instance : LawfulStore MemoryStore where
  holdings store := ⟨store.find?, store.journal⟩
  holdings_save execution store := by
    have found := funext (find?_put store execution)
    simpa [Store.save, Holdings.settled, Holdings.put] using ⟨found, rfl⟩
  holdings_saveJournal id journal store := by
    have found := funext fun other => journal_putJournal store id other journal
    simpa [Store.saveJournal, Holdings.settled, Holdings.putJournal] using ⟨rfl, found⟩
  holdings_load _ _ := rfl
  holdings_mostRecent _ _ := rfl
  holdings_loadJournal _ _ := rfl
  eq_of_load h := Except.ok.inj h
  stored_of_mostRecent h :=
    find?_eq_of_mem (List.mem_filter.mp (Execution.mem_of_newest? (Except.ok.inj h))).1
  eq_of_loadJournal h := Except.ok.inj h

end MemoryStore

/-! ## Watched stores -/

namespace Watched

variable {σ α : Type}

/-- A watched call is answered by the store or fails without effect. -/
theorem answer_cases (call : StoreCall) (act : σ → StoreResult σ α) (watched : Watched σ) :
    (∃ error, (answer call act watched).1 = .error error ∧
      (answer call act watched).2.store = watched.store) ∨
    (answer call act watched).1 = (act watched.store).1 ∧
      (answer call act watched).2.store = (act watched.store).2 := by
  unfold answer
  by_cases fails : watched.failsNext call
  · exact .inl ⟨.unavailable "disk full", by simp [fails]⟩
  · exact .inr (by simp [fails])

theorem ok_of_answer {call : StoreCall} {act : σ → StoreResult σ α} {watched : Watched σ}
    {found : α} (h : (answer call act watched).1 = .ok found) :
    (act watched.store).1 = .ok found := by
  rcases answer_cases call act watched with ⟨error, failed, _⟩ | ⟨result, _⟩
  · rw [failed] at h
    cases h
  · rw [← result, h]

variable [LawfulStore σ]

open LawfulStore (holdings)

theorem holdings_write {call : StoreCall} {act : σ → StoreResult σ Unit} {written : Holdings}
    (watched : Watched σ)
    (law : holdings (act watched.store).2 =
      written.settled (holdings watched.store) (act watched.store).1) :
    holdings (answer call act watched).2.store =
      written.settled (holdings watched.store) (answer call act watched).1 := by
  rcases answer_cases call act watched with ⟨error, failed, same⟩ | ⟨result, after⟩
  · rw [failed, same]
    rfl
  · rw [result, after, law]

theorem holdings_read {call : StoreCall} {act : σ → StoreResult σ α} (watched : Watched σ)
    (law : holdings (act watched.store).2 = holdings watched.store) :
    holdings (answer call act watched).2.store = holdings watched.store := by
  rcases answer_cases call act watched with ⟨_, _, same⟩ | ⟨_, after⟩
  · rw [same]
  · rw [after, law]

instance : LawfulStore (Watched σ) where
  holdings watched := holdings watched.store
  holdings_save execution watched :=
    holdings_write watched (LawfulStore.holdings_save execution watched.store)
  holdings_saveJournal id journal watched :=
    holdings_write watched (LawfulStore.holdings_saveJournal id journal watched.store)
  holdings_load id watched := holdings_read watched (LawfulStore.holdings_load id watched.store)
  holdings_mostRecent kind watched :=
    holdings_read watched (LawfulStore.holdings_mostRecent kind watched.store)
  holdings_loadJournal id watched :=
    holdings_read watched (LawfulStore.holdings_loadJournal id watched.store)
  eq_of_load h := LawfulStore.eq_of_load (ok_of_answer h)
  stored_of_mostRecent h := LawfulStore.stored_of_mostRecent (ok_of_answer h)
  eq_of_loadJournal h := LawfulStore.eq_of_loadJournal (ok_of_answer h)

end Watched

end PhasedUpgrade
