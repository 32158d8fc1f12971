import AiConfig.Herder.Web.StateSync

/-! # What a page's operations leave alone

The store as a map from keys, the queue as a set, and one lemma for each operation that
says which of rows, queue, catch-up and requests it can change. -/

namespace AiConfig.Herder

open AiConfig.Lib

section

variable {V : Type}

/-! ## The store and the queue -/

theorem firstOf_of_not_mem {rows : List (Row V)} {key : String} (absent : key ∉ rows.map Row.key) :
    firstOf rows key = none := by
  rw [firstOf, List.find?_eq_none]
  intro row member own
  exact absent (by simpa using ⟨row, member, of_decide_eq_true own⟩)

theorem firstOf_putRow (rows : List (Row V)) (row : Row V) (key : String) :
    firstOf (putRow rows row) key = if row.key = key then some row else firstOf rows key := by
  induction rows with
  | nil => simp [putRow, firstOf_cons]
  | cons head rest inductionHypothesis =>
    rw [putRow]
    split
    · rename_i same
      rw [firstOf_cons, firstOf_cons, same]
      split
      · rfl
      · rfl
    · rename_i apart
      rw [firstOf_cons, firstOf_cons, inductionHypothesis]
      by_cases own : head.key = key
      · rw [if_pos own, if_pos own, if_neg (fun same => apart (own.trans same.symm))]
      · rw [if_neg own, if_neg own]

theorem firstOf_putRows {rows offered : List (Row V)} {key : String}
    (apart : key ∉ offered.map Row.key) :
    firstOf (offered.foldl putRow rows) key = firstOf rows key := by
  induction offered generalizing rows with
  | nil => rfl
  | cons row rest inductionHypothesis =>
    rw [List.map_cons, List.mem_cons, not_or] at apart
    rw [List.foldl_cons, inductionHypothesis apart.2, firstOf_putRow, if_neg (Ne.symm apart.1)]

theorem putRow_keys (rows : List (Row V)) (row : Row V) :
    (putRow rows row).map Row.key =
      if row.key ∈ rows.map Row.key then rows.map Row.key else rows.map Row.key ++ [row.key] := by
  induction rows with
  | nil => simp [putRow]
  | cons head rest inductionHypothesis =>
    rw [putRow]
    by_cases same : head.key = row.key
    · simp [same]
    · rw [if_neg same, List.map_cons, inductionHypothesis]
      simp only [List.map_cons, List.mem_cons, Ne.symm same, false_or]
      split <;> rfl

theorem nodup_snoc_key {keys : List String} {key : String} (nodup : keys.Nodup) :
    (if key ∈ keys then keys else keys ++ [key]).Nodup := by
  split
  · exact nodup
  · rename_i fresh
    rw [List.nodup_append]
    refine ⟨nodup, List.nodup_singleton key, fun one first other second same => fresh ?_⟩
    rw [List.mem_singleton] at second
    exact second ▸ same ▸ first

theorem nodup_addCandidates {rows offered : List (Row V)} (nodup : (rows.map Row.key).Nodup) :
    ((offered.foldl addCandidate rows).map Row.key).Nodup := by
  induction offered generalizing rows with
  | nil => exact nodup
  | cons row rest inductionHypothesis =>
    apply inductionHypothesis
    rw [addCandidate_keys]
    exact nodup_snoc_key nodup

theorem nodup_putRows {rows offered : List (Row V)} (nodup : (rows.map Row.key).Nodup) :
    ((offered.foldl putRow rows).map Row.key).Nodup := by
  induction offered generalizing rows with
  | nil => exact nodup
  | cons row rest inductionHypothesis =>
    apply inductionHypothesis
    rw [putRow_keys]
    exact nodup_snoc_key nodup

theorem mem_addKeys {queue keys : List String} {key : String} :
    key ∈ keys.foldl addKey queue ↔ key ∈ queue ∨ key ∈ keys := by
  induction keys generalizing queue with
  | nil => simp
  | cons head rest inductionHypothesis =>
    rw [List.foldl_cons, inductionHypothesis, addKey, List.mem_cons]
    split
    · rename_i known
      constructor
      · tauto
      · rintro (queued | rfl | later)
        · exact Or.inl queued
        · exact Or.inl known
        · exact Or.inr later
    · rw [List.mem_append, List.mem_singleton, or_assoc]

@[simp] theorem Page.writeQueue_queue (page : Page V) : page.writeQueue.queue = page.queue := by
  rw [writeQueue]
  split <;> rfl

/-- What an update of the queue leaves alone. -/
structure Page.SameBut (page page' : Page V) : Prop where
  rows : page'.rows = page.rows
  catchUp : page'.catchUp = page.catchUp
  pull : page'.pull = page.pull
  send : page'.send = page.send

theorem Page.enqueueKeys_same (page : Page V) (keys : List String) :
    page.SameBut (page.enqueueKeys keys) := by
  simp only [enqueueKeys, writeQueue]
  split
  · exact ⟨rfl, rfl, rfl, rfl⟩
  · split <;> exact ⟨rfl, rfl, rfl, rfl⟩

theorem Page.dequeueKeys_same (page : Page V) (keys : List String) :
    page.SameBut (page.dequeueKeys keys) := by
  simp only [dequeueKeys, writeQueue]
  split
  · exact ⟨rfl, rfl, rfl, rfl⟩
  · split <;> exact ⟨rfl, rfl, rfl, rfl⟩

theorem Page.mem_enqueueKeys {page : Page V} {keys : List String} {key : String} :
    key ∈ (page.enqueueKeys keys).queue ↔ key ∈ page.queue ∨ key ∈ keys := by
  rw [enqueueKeys]
  split
  · exact mem_addKeys
  · rw [writeQueue_queue]
    exact mem_addKeys

theorem Page.mem_dequeueKeys {page : Page V} {keys : List String} {key : String} :
    key ∈ (page.dequeueKeys keys).queue ↔ key ∈ page.queue ∧ key ∉ keys := by
  rw [dequeueKeys]
  split
  · rename_i same
    have all := List.filter_eq_self.mp (List.Sublist.eq_of_length List.filter_sublist same)
    constructor
    · exact fun queued => ⟨queued, by simpa using all key queued⟩
    · exact And.left
  · rw [writeQueue_queue, List.mem_filter]
    simp

theorem Page.mem_forget {options : SyncOptions V} {page : Page V} {keys : List String}
    {key : String} :
    key ∈ (page.forget options keys).queue ↔ key ∈ page.queue ∧ key ∉ keys := by
  rw [forget]
  split
  · rename_i empty
    rw [List.isEmpty_iff] at empty
    simp [empty]
  · rw [mem_dequeueKeys]

theorem Page.forget_rows (options : SyncOptions V) (page : Page V) (keys : List String) :
    (page.forget options keys).rows = page.rows ∨
      options.forgets = true ∧ (page.forget options keys).rows = page.rows.filter fun row =>
        row.key ∉ keys := by
  rw [forget]
  split
  · exact Or.inl rfl
  · rw [(dequeueKeys_same _ _).rows]
    dsimp only
    split
    · rename_i forgets
      exact Or.inr ⟨forgets, rfl⟩
    · exact Or.inl rfl

theorem Page.forget_catchUp (options : SyncOptions V) (page : Page V) (keys : List String) :
    (page.forget options keys).catchUp = page.catchUp := by
  rw [forget]
  split
  · rfl
  · exact (dequeueKeys_same _ _).catchUp

theorem Page.forget_pull (options : SyncOptions V) (page : Page V) (keys : List String) :
    (page.forget options keys).pull = page.pull := by
  rw [forget]
  split
  · rfl
  · exact (dequeueKeys_same _ _).pull

theorem Page.forget_send (options : SyncOptions V) (page : Page V) (keys : List String) :
    (page.forget options keys).send = page.send := by
  rw [forget]
  split
  · rfl
  · exact (dequeueKeys_same _ _).send

/-- A row that is still there was there, and is one of the forgotten keys only where the store keeps
it. -/
theorem Page.row_forget {options : SyncOptions V} {page : Page V} {keys : List String}
    {key : String} {row : Row V}
    (found : (page.forget options keys).row key = some row) :
    page.row key = some row ∧ (options.forgets = true → key ∉ keys ∨
      (page.forget options keys).rows = page.rows) := by
  cases forget_rows options page keys with
  | inl same =>
    rw [Page.row, same] at found
    exact ⟨found, fun _ => Or.inr same⟩
  | inr dropped =>
    rw [Page.row, dropped.2, firstOf_filter _ fun key => decide (key ∉ keys)] at found
    split at found
    · rename_i stays
      exact ⟨found, fun _ => Or.inl (of_decide_eq_true stays)⟩
    · cases found

/-! ## Requests and loops -/

/-- The rows stay, a key leaves the queue only where no row is left, and nothing is answered. -/
structure Page.Keeps (page page' : Page V) : Prop where
  rows : page'.rows = page.rows
  catchUp : page'.catchUp = page.catchUp
  queue : ∀ key ∈ page.queue, key ∈ page'.queue ∨ page.row key = none
  pull : ∀ full since snapshot, page'.pull = some ⟨full, since, some (.ok snapshot)⟩ →
    page.pull = some ⟨full, since, some (.ok snapshot)⟩
  send : ∀ rows split chunks result,
    page'.send = some (.posting rows split chunks (some (.ok result))) →
    page.send = some (.posting rows split chunks (some (.ok result)))

theorem Page.Keeps.refl (page : Page V) : page.Keeps page where
  rows := rfl
  catchUp := rfl
  queue := fun _ queued => Or.inl queued
  pull := fun _ _ _ answered => answered
  send := fun _ _ _ _ answered => answered

theorem Page.Keeps.trans {a b c : Page V} (first : a.Keeps b) (second : b.Keeps c) : a.Keeps c where
  rows := second.rows.trans first.rows
  catchUp := second.catchUp.trans first.catchUp
  queue := by
    intro key queued
    cases first.queue key queued with
    | inr gone => exact Or.inr gone
    | inl still =>
      cases second.queue key still with
      | inl queued => exact Or.inl queued
      | inr gone =>
        right
        rw [Page.row, ← first.rows]
        exact gone
  pull := fun full since snapshot answered =>
    first.pull full since snapshot (second.pull full since snapshot answered)
  send := fun rows split chunks result answered =>
    first.send rows split chunks result (second.send rows split chunks result answered)

theorem Page.SameBut.keeps {page page' : Page V} (same : page.SameBut page')
    (queue : ∀ key ∈ page.queue, key ∈ page'.queue ∨ page.row key = none) : page.Keeps page' where
  rows := same.rows
  catchUp := same.catchUp
  queue := queue
  pull := fun _ _ _ answered => same.pull ▸ answered
  send := fun _ _ _ _ answered => same.send ▸ answered

theorem Page.keeps_requestPull (page : Page V) (waiter : Option Waiter) :
    page.Keeps (page.requestPull waiter) := by
  rw [requestPull]
  split
  · exact ⟨rfl, rfl, fun _ queued => Or.inl queued, fun _ _ _ answered => answered,
      fun _ _ _ _ answered => answered⟩
  · exact ⟨rfl, rfl, fun _ queued => Or.inl queued, fun _ _ _ answered => by simp at answered,
      fun _ _ _ _ answered => answered⟩

theorem Page.keeps_handleFailure (page : Page V) (problem : Problem) :
    page.Keeps (page.handleFailure problem) := by
  have retries : page.Keeps page.scheduleRetry := by
    rw [scheduleRetry]
    split
    · exact .refl page
    · exact ⟨rfl, rfl, fun _ queued => Or.inl queued, fun _ _ _ answered => answered,
        fun _ _ _ _ answered => answered⟩
  cases problem with
  | attributionRequired =>
    exact ⟨rfl, rfl, fun _ queued => Or.inl queued, fun _ _ _ answered => answered,
      fun _ _ _ _ answered => answered⟩
  | tooLarge => exact retries
  | other => exact retries

theorem Page.keeps_pullSettles (page : Page V) : page.Keeps page.pullSettles := by
  have settled : ∀ again : Bool, page.Keeps
      { page with pull := none, ready := page.ready ++ page.awaiting, awaiting := [], pullAgain := again } := fun _ =>
    ⟨rfl, rfl, fun _ queued => Or.inl queued, fun _ _ _ answered => (nomatch answered),
      fun _ _ _ _ answered => answered⟩
  rw [pullSettles]
  dsimp only
  split
  · exact (settled false).trans (keeps_requestPull _ none)
  · exact settled page.pullAgain

/-- Only `send` and what is not read here changes. -/
theorem Page.keeps_send (page : Page V) {send : Option (Send V)}
    (open_post : ∀ rows split chunks result,
    send ≠ some (.posting rows split chunks (some (.ok result)))) :
    page.Keeps { page with send := send } where
  rows := rfl
  catchUp := rfl
  queue := fun _ queued => Or.inl queued
  pull := fun _ _ _ answered => answered
  send :=
    fun rows split chunks result answered => absurd answered (open_post rows split chunks result)

theorem Page.keeps_sendOnce (options : SyncOptions V) (page : Page V) :
    page.Keeps (page.sendOnce options) := by
  have trims :
      page.Keeps (page.dequeueKeys (page.waiting.filter fun key => (page.row key).isNone)) := by
    apply (dequeueKeys_same _ _).keeps
    intro key queued
    cases found : page.row key with
    | none => exact Or.inr rfl
    | some row => exact Or.inl (mem_dequeueKeys.mpr ⟨queued, by simp [found]⟩)
  rw [sendOnce]
  split
  · exact keeps_send page (by simp)
  · dsimp only
    split
    · exact trims.trans (keeps_send _ (by simp))
    · exact trims.trans (keeps_send _ (by simp))

theorem Page.keeps_sendQueue (options : SyncOptions V) (page : Page V) :
    page.Keeps (page.sendQueue options) := by
  rw [sendQueue]
  split
  · exact ⟨rfl, rfl, fun _ queued => Or.inl queued, fun _ _ _ answered => answered,
      fun _ _ _ _ answered => answered⟩
  · exact keeps_sendOnce options page

theorem Page.keeps_sendEnds (options : SyncOptions V) (page : Page V) :
    page.Keeps (page.sendEnds options) := by
  have ends : ∀ again : Bool, page.Keeps { page with send := none, sendAgain := again } := fun _ =>
    ⟨rfl, rfl, fun _ queued => Or.inl queued, fun _ _ _ answered => answered,
      fun _ _ _ _ answered => nomatch answered⟩
  rw [sendEnds]
  dsimp only
  split
  · exact (ends false).trans (keeps_sendQueue options _)
  · exact ends page.sendAgain

theorem Page.keeps_proceed (page : Page V) (split : List (Row V)) (chunks : List (List (Row V))) :
    page.Keeps (page.proceed split chunks) := by
  have resets : page.Keeps { page with backoff := 500 } :=
    ⟨rfl, rfl, fun _ queued => Or.inl queued, fun _ _ _ answered => answered,
      fun _ _ _ _ answered => answered⟩
  rw [proceed.eq_def]
  split
  · exact keeps_send page (by simp)
  · exact keeps_send page (by simp)
  · exact (resets.trans (keeps_requestPull _ _)).trans (keeps_send _ (by simp))

theorem Page.keeps_resume (options : SyncOptions V) (page : Page V) (waiter : Waiter) :
    page.Keeps (page.resume options waiter) := by
  cases waiter with
  | start =>
    rw [resume]
    split
    · have grows : page.Keeps (page.enqueueKeys (page.rows.map (·.key))) :=
        (enqueueKeys_same _ _).keeps fun key queued => Or.inl (mem_enqueueKeys.mpr (Or.inl queued))
      exact grows.trans (keeps_sendQueue options _)
    · exact keeps_sendQueue options page
  | sendQueue => exact keeps_sendQueue options page
  | sendOnce => exact keeps_send page (by simp)

end

end AiConfig.Herder
