import AiConfig.Herder.Native.Attention
import Mathlib.Data.List.Chain
import Mathlib.Data.List.Induction

/-! # Alerts are spent once

What `transitions` finds of one agent at each event, over any sequence of events.

* `transitions_mark` — an agent's mark after the loop depends on no other agent.
* `alerted_once` — while an agent stays on the board, its alerts are apart in what causes them; its
  turn ends are while no block alerts with a turn end behind the mark's.
* `turn_alerted_again` — a turn end that was gone during a block alerts twice. -/

namespace AiConfig.Herder.NativeAttention

open Std

/-! ## The loop over the fleet -/

namespace Store

/-- What the loop finds of an agent on the board. -/
def sight (s : Store) (name : String) : Option Seen :=
  s.fleet[name]?.map fun a => s.seen s.alerts name a

theorem seen_congr (s : Store) {alerts alerts' : Alerts} {name : String}
    (marks : alerts.marks[name]? = alerts'.marks[name]?)
    (armed : alerts.armed = alerts'.armed) (a : Agent) :
    s.seen alerts name a = s.seen alerts' name a := by
  simp only [seen, marks, armed]

theorem see_other (s : Store) (alerts : Alerts) {other name : String} (apart : name ≠ other)
    (a : Agent) :
    (s.see alerts other a).marks[name]? = alerts.marks[name]? := by
  show (alerts.marks.insert other _)[name]? = _
  rw [ExtTreeMap.getElem?_insert, if_neg]
  rw [LawfulEqCmp.compare_eq_iff_eq]
  exact Ne.symm apart

section

variable (s : Store) (pairs : List (String × Agent)) (alerts : Alerts)

/-- The loop, over a list. -/
def seeAll : Alerts := pairs.foldl (fun alerts pair => s.see alerts pair.1 pair.2) alerts

theorem seeAll_flags : (s.seeAll pairs alerts).armed = alerts.armed ∧
    (s.seeAll pairs alerts).live = alerts.live := by
  induction pairs generalizing alerts with
  | nil => exact ⟨rfl, rfl⟩
  | cons pair pairs inductionHypothesis => exact inductionHypothesis (s.see alerts pair.1 pair.2)

theorem seeAll_other {name : String} (absent : name ∉ pairs.map Prod.fst) :
    (s.seeAll pairs alerts).marks[name]? = alerts.marks[name]? := by
  induction pairs generalizing alerts with
  | nil => rfl
  | cons pair pairs inductionHypothesis =>
    rw [List.map_cons, List.mem_cons, not_or] at absent
    exact (inductionHypothesis _ absent.2).trans (see_other s alerts absent.1 pair.2)

theorem seeAll_own (distinct : (pairs.map Prod.fst).Nodup) {name : String} {a : Agent}
    (inside : (name, a) ∈ pairs) :
    (s.seeAll pairs alerts).marks[name]? = some (s.seen alerts name a).next := by
  induction pairs generalizing alerts with
  | nil => cases inside
  | cons pair pairs inductionHypothesis =>
    rw [List.map_cons, List.nodup_cons] at distinct
    cases List.mem_cons.mp inside with
    | inl own =>
      subst own
      refine (seeAll_other s pairs _ distinct.1).trans ?_
      exact ExtTreeMap.getElem?_insert_self
    | inr later =>
      have apart : name ≠ pair.1 := fun same => distinct.1 (same ▸ List.mem_map_of_mem later)
      have same := seen_congr s (see_other s alerts apart pair.2) rfl a
      rw [← same]
      exact inductionHypothesis _ distinct.2 later

/-- Only an alert joins the burst. -/
theorem seeAll_joined (distinct : (pairs.map Prod.fst).Nodup) {name : String}
    (joined : name ∈ (s.seeAll pairs alerts).burst) :
    name ∈ alerts.burst ∨ ∃ a, (name, a) ∈ pairs ∧ (s.seen alerts name a).alert = true := by
  induction pairs generalizing alerts with
  | nil => exact .inl joined
  | cons pair pairs inductionHypothesis =>
    rw [List.map_cons, List.nodup_cons] at distinct
    cases inductionHypothesis (s.see alerts pair.1 pair.2) distinct.2 joined with
    | inl before =>
      simp only [see] at before
      split at before
      · next alerted =>
        simp only [Bool.and_eq_true] at alerted
        cases List.mem_append.mp before with
        | inl old => exact .inl old
        | inr new =>
          obtain rfl := List.mem_singleton.mp new
          exact .inr ⟨pair.2, List.mem_cons_self, alerted.1.1⟩
      · exact .inl before
    | inr later =>
      obtain ⟨a, inside, alert⟩ := later
      have apart : name ≠ pair.1 := fun same => distinct.1 (same ▸ List.mem_map_of_mem inside)
      have same := seen_congr s (see_other s alerts apart pair.2) rfl a
      exact .inr ⟨a, List.mem_cons_of_mem _ inside, same ▸ alert⟩

end

theorem transitions_loop (s : Store) :
    s.fleet.foldl s.see s.alerts = s.seeAll s.fleet.toList s.alerts := by
  rw [ExtTreeMap.foldl_eq_foldl_toList]
  rfl

theorem distinct_names (fleet : Fleet) : (fleet.toList.map Prod.fst).Nodup := by
  rw [ExtTreeMap.map_fst_toList_eq_keys]
  exact ExtTreeMap.nodup_keys

theorem transitions_mark (s : Store) (name : String) :
    s.transitions.1.alerts.marks[name]? = (s.sight name).map Seen.next := by
  show ((s.fleet.foldl s.see s.alerts).marks.filter fun name _ => s.fleet.contains name)[name]? = _
  rw [transitions_loop, ExtTreeMap.getElem?_filter', sight]
  cases held : s.fleet[name]? with
  | none =>
    have gone : s.fleet.contains name = false := by
      rw [ExtTreeMap.contains_eq_isSome_getElem?, held, Option.isSome_none]
    rw [gone]
    cases (s.seeAll s.fleet.toList s.alerts).marks[name]? <;> rfl
  | some a =>
    have there : s.fleet.contains name = true := by
      rw [ExtTreeMap.contains_eq_isSome_getElem?, held, Option.isSome_some]
    have inside := ExtTreeMap.mem_toList_iff_getElem?_eq_some.mpr held
    rw [there, seeAll_own s _ _ (distinct_names s.fleet) inside]
    rfl

theorem transitions_flags (s : Store) : s.transitions.1.alerts.armed = s.alerts.live ∧
    s.transitions.1.alerts.live = s.alerts.live := by
  show (s.fleet.foldl s.see s.alerts).live = _ ∧ (s.fleet.foldl s.see s.alerts).live = _
  rw [transitions_loop, (s.seeAll_flags _ _).2]
  exact ⟨rfl, rfl⟩

theorem transitions_joined (s : Store) {name : String}
    (joined : name ∈ s.transitions.1.alerts.burst) :
    name ∈ s.alerts.burst ∨ ∃ seen, s.sight name = some seen ∧ seen.alert = true := by
  have list : name ∈ (s.seeAll s.fleet.toList s.alerts).burst := transitions_loop s ▸ joined
  cases s.seeAll_joined _ _ (distinct_names s.fleet) list with
  | inl before => exact .inl before
  | inr alerted =>
    obtain ⟨a, inside, alert⟩ := alerted
    have held := ExtTreeMap.mem_toList_iff_getElem?_eq_some.mp inside
    exact .inr ⟨s.seen s.alerts name a, by rw [sight, held, Option.map_some], alert⟩

/-! ## Events -/

/-- An event leaves the marks and what arms them to `transitions`; only a live board makes the
alerts live. -/
theorem ready_alerts (s : Store) (input : Input) : (s.ready input).alerts.marks = s.alerts.marks ∧
    (s.ready input).alerts.armed = s.alerts.armed ∧
    (s.ready input).alerts.live = (s.alerts.live || input.event.isFleet) := by
  have watched : ∀ s : Store, s.watch.1.alerts = s.alerts := by
    intro s
    unfold watch
    split
    · unfold viewBlock
      split <;> rfl
    · rfl
  have burst : ∀ s : Store, s.burstEnded.1.alerts = { s.alerts with burst := [] } := by
    intro s
    unfold burstEnded
    dsimp only
    split <;> rfl
  show (s.handle input.event).1.watch.1.alerts.marks = _ ∧
    (s.handle input.event).1.watch.1.alerts.armed = _ ∧
    (s.handle input.event).1.watch.1.alerts.live = _
  rw [watched]
  cases input.event with
  | boot => exact ⟨rfl, rfl, (Bool.or_false _).symm⟩
  | snapshot board spaces =>
    show (ite _ _ _ : Store × List Effect).1.alerts.marks = _ ∧
      (ite _ _ _ : Store × List Effect).1.alerts.armed = _ ∧
      (ite _ _ _ : Store × List Effect).1.alerts.live = _
    split
    · exact ⟨rfl, rfl, (Bool.or_false _).symm⟩
    · exact ⟨rfl, rfl, rfl⟩
  | fleet board => exact ⟨rfl, rfl, rfl⟩
  | front front => exact ⟨rfl, rfl, (Bool.or_false _).symm⟩
  | burst =>
    show s.burstEnded.1.alerts.marks = _ ∧ s.burstEnded.1.alerts.armed = _ ∧
      s.burstEnded.1.alerts.live = _
    rw [burst]
    exact ⟨rfl, rfl, (Bool.or_false _).symm⟩
  | other rest => exact ⟨rfl, rfl, (Bool.or_false _).symm⟩

theorem apply_alerts (s : Store) (input : Input) :
    (∀ name, (s.apply input).1.alerts.marks[name]? = ((s.ready input).sight name).map Seen.next) ∧
    (s.apply input).1.alerts.armed = (s.alerts.live || input.event.isFleet) ∧
    (s.apply input).1.alerts.live = (s.alerts.live || input.event.isFleet) := by
  have flags := transitions_flags (s.ready input)
  have live := (ready_alerts s input).2.2
  exact ⟨transitions_mark (s.ready input), flags.1.trans live, flags.2.trans live⟩

/-- Once armed, armed; and armed only after a live board. -/
structure Armed (inputs : List Input) (s : Store) : Prop where
  armed : s.alerts.armed = true → s.alerts.live = true
  live : s.alerts.live = true → ∃ input ∈ inputs, input.event.isFleet = true

theorem armed_run (inputs : List Input) : Armed inputs (Store.default.run inputs) := by
  induction inputs using List.reverseRecOn with
  | nil => exact ⟨nofun, nofun⟩
  | append_singleton inputs input inductionHypothesis =>
    have after := apply_alerts (Store.default.run inputs) input
    rw [run, List.foldl_append, List.foldl_cons, List.foldl_nil]
    constructor
    · intro armed
      exact after.2.2.trans (after.2.1.symm.trans armed)
    · intro live
      have either := after.2.2.symm.trans live
      rw [Bool.or_eq_true] at either
      cases either with
      | inl before =>
        obtain ⟨earlier, inside, fleet⟩ := inductionHypothesis.live before
        exact ⟨earlier, List.mem_append_left _ inside, fleet⟩
      | inr fleet => exact ⟨input, by simp, fleet⟩

/-- What each event shows of an agent. -/
def history (name : String) : Store → List Input → List (Option Seen)
  | _, [] => []
  | s, input :: inputs => (s.ready input).sight name :: history name (s.apply input).1 inputs

end Store

/-! ## An agent that stays on the board -/

namespace Seen

/-- A block that would alert while the agent's turn end is behind the mark's: gone, or smaller. -/
def behind (seen : Seen) : Bool := seen.forBlock && Store.later seen.mark.turn seen.turn

/-- Two sights of an agent that was on the board in between. -/
structure Follows (seen after : Seen) : Prop where
  mark : after.mark = { seen.next with block := seen.next.block && after.blocked }
  armed : seen.armed = true → after.armed = true

variable {seen after : Seen}

theorem next_eligible (seen : Seen) : seen.next.eligible = seen.eligible := rfl

theorem Follows.eligible (follows : Follows seen after) : after.mark.eligible = seen.eligible := by
  rw [follows.mark, ← next_eligible seen]

/-- An alert needs a move. -/
theorem moved_of_alert (alert : seen.alert = true) : seen.armed = true ∧ seen.eligible = true ∧
    seen.mark.eligible = false := by
  have moved : seen.moved = true := by
    simp only [Seen.alert, forTurn, forBlock, Bool.or_eq_true, Bool.and_eq_true] at alert
    cases alert with
    | inl turn => exact turn.1
    | inr block => exact block.1.1
  simp only [Seen.moved, Bool.and_eq_true, Bool.not_eq_true'] at moved
  exact ⟨moved.1.1, moved.1.2, moved.2⟩

/-- A mark keeps its turn, or takes the agent's. -/
theorem next_spent (seen : Seen) (armed : seen.armed = true) :
    seen.next.turn = (if seen.alert then seen.turn else seen.mark.turn) ∧
      seen.next.block = (if seen.alert then seen.blocked else seen.mark.block) := by
  unfold next
  dsimp only
  rw [armed, Bool.not_true, Bool.or_false]
  split <;> exact ⟨rfl, rfl⟩

end Seen

namespace Store

/-- An agent that is on the board at two events is found with the mark that the first left. -/
theorem sight_follows {s : Store} (armed : s.alerts.armed = true → s.alerts.live = true)
    {input next : Input} {name : String}
    {seen after : Seen} (first : (s.ready input).sight name = some seen)
    (second : ((s.apply input).1.ready next).sight name = some after) :
    Seen.Follows seen after := by
  obtain ⟨marks, armedAfter, -⟩ := apply_alerts s input
  have left := ready_alerts (s.apply input).1 next
  have held := marks name
  rw [first, Option.map_some, ← left.1] at held
  simp only [sight, Option.map_eq_some_iff] at first second
  obtain ⟨a, -, rfl⟩ := first
  obtain ⟨b, -, rfl⟩ := second
  constructor
  · simp only [Store.seen, held, Option.getD_some]
  · intro wasArmed
    have before : s.alerts.armed = true := (ready_alerts s input).2.1.symm.trans wasArmed
    show ((s.apply input).1.ready next).alerts.armed = true
    rw [left.2.1, armedAfter, armed before]
    rfl

theorem history_follows {name : String} {inputs : List Input} {s : Store} {seen : List Seen}
    (armed : s.alerts.armed = true → s.alerts.live = true)
    (stays : s.history name inputs = seen.map some) :
    seen.IsChain Seen.Follows := by
  induction inputs generalizing s seen with
  | nil =>
    obtain rfl := List.map_eq_nil_iff.mp stays.symm
    exact List.IsChain.nil
  | cons input inputs inductionHypothesis =>
    obtain ⟨first, rest, rfl, shown, restStays⟩ := List.map_eq_cons_iff.mp stays.symm
    have after := apply_alerts s input
    have chain :=
      inductionHypothesis (fun live => after.2.2.trans (after.2.1.symm.trans live)) restStays.symm
    cases inputs with
    | nil =>
      obtain rfl := List.map_eq_nil_iff.mp restStays
      exact List.IsChain.singleton _
    | cons next inputs =>
      obtain ⟨second, rest, rfl, shownNext, -⟩ := List.map_eq_cons_iff.mp restStays
      exact List.isChain_cons_cons.mpr ⟨sight_follows armed shown.symm shownNext.symm, chain⟩

end Store

/-! ## What lies between two alerts -/

/-- What holds at the start of a chain and is kept from one link to the next holds before its end.
-/
theorem carried {α : Type} {R : α → α → Prop} {P : α → Prop} {first second : α} {between : List α}
    (chain : (first :: (between ++ [second])).IsChain R) (start : P first)
    (step : ∀ a, P a → ∀ b ∈ between, R a b → P b) :
    ∃ last, P last ∧ R last second := by
  induction between generalizing first with
  | nil => exact ⟨first, start, (List.isChain_cons_cons.mp chain).1⟩
  | cons next between inductionHypothesis =>
    obtain ⟨link, chain⟩ := List.isChain_cons_cons.mp chain
    exact inductionHypothesis chain
        (step first start next List.mem_cons_self link) fun a holds b inside =>
      step a holds b (List.mem_cons_of_mem _ inside)

section

variable {first second : Seen} {between : List Seen}

/-- Alerted twice, the agent stopped needing the owner in between. -/
theorem stopped_between (chain : (first :: (between ++ [second])).IsChain Seen.Follows)
    (alerted : first.alert = true)
    (again : second.alert = true) : ∃ sight ∈ between, sight.eligible = false := by
  by_contra never
  have always : ∀ sight ∈ between, sight.eligible = true := fun sight inside =>
    Bool.of_not_eq_false fun stopped => never ⟨sight, inside, stopped⟩
  obtain ⟨last, eligible, follows⟩ :=
    carried (P := fun seen => seen.eligible = true) chain (Seen.moved_of_alert alerted).2.1
    fun _ _ b inside _ => always b inside
  have moved := (Seen.moved_of_alert again).2.2
  rw [follows.eligible, eligible] at moved
  cases moved

/-- A block that was alerted ended before another was. -/
theorem unblocked_between (chain : (first :: (between ++ [second])).IsChain Seen.Follows)
    (alerted : first.alert = true)
    (blocked : first.blocked = true) (again : second.forBlock = true) :
    ∃ sight ∈ between, sight.blocked = false := by
  by_contra never
  have always : ∀ sight ∈ between, sight.blocked = true := fun sight inside =>
    Bool.of_not_eq_false fun stopped => never ⟨sight, inside, stopped⟩
  have spent : first.armed = true ∧ first.next.block = true := by
    have armed := (Seen.moved_of_alert alerted).1
    rw [(first.next_spent armed).2, if_pos alerted]
    exact ⟨armed, blocked⟩
  obtain ⟨last, spent, follows⟩ :=
    carried (P := fun seen => seen.armed = true ∧ seen.next.block = true) chain spent
    fun a spent b inside follows => by
      have armed := follows.armed spent.1
      have mark : b.mark.block = true := by rw [follows.mark, spent.2, always b inside]; rfl
      rw [(b.next_spent armed).2, mark, always b inside, ite_self]
      exact ⟨armed, rfl⟩
  simp only [Seen.forBlock, Bool.and_eq_true, Bool.not_eq_true'] at again
  have unspent := again.2
  rw [follows.mark, spent.2, again.1.2] at unspent
  cases unspent

/-! ## Turn ends -/

/-- No turn, then the turns in order. -/
def rank : Option Nat → Nat
  | none => 0
  | some turn => turn + 1

theorem later_iff {turn mark : Option Nat} : Store.later turn mark = true ↔
    rank mark < rank turn := by
  cases turn <;> cases mark <;> simp [Store.later, rank]

/-- While no block alerts behind the mark's turn, a mark's turn never goes back. -/
theorem Seen.Follows.turn {a b : Seen} (follows : Seen.Follows a b) (armed : a.armed = true)
    (ahead : b.behind = false) :
    rank a.next.turn ≤ rank b.next.turn := by
  have mark : b.mark.turn = a.next.turn := by rw [follows.mark]
  rw [← mark, (b.next_spent (follows.armed armed)).1]
  split
  · next alert =>
    simp only [Seen.alert, Bool.or_eq_true] at alert
    cases alert with
    | inl turn =>
      simp only [Seen.forTurn, Bool.and_eq_true, later_iff] at turn
      omega
    | inr block =>
      simp only [Seen.behind, block, Bool.true_and] at ahead
      have notLater : ¬ rank b.turn < rank b.mark.turn :=
        fun less => by rw [later_iff.mpr less] at ahead; cases ahead
      omega
  · exact Nat.le_refl _

/-- A turn end that was alerted is behind the next one that is. -/
theorem turn_between (chain : (first :: (between ++ [second])).IsChain Seen.Follows)
    (ahead : ∀ sight ∈ between, sight.behind = false)
    (alerted : first.forTurn = true) (again : second.forTurn = true) :
    rank first.turn < rank second.turn := by
  have alert : first.alert = true := by rw [Seen.alert, alerted, Bool.true_or]
  have armed := (Seen.moved_of_alert alert).1
  have spent : first.armed = true ∧ rank first.turn ≤ rank first.next.turn := by
    rw [(first.next_spent armed).1, if_pos alert]
    exact ⟨armed, Nat.le_refl _⟩
  obtain ⟨last, spent, follows⟩ :=
    carried (P := fun seen => seen.armed = true ∧
        rank first.turn ≤ rank seen.next.turn) chain spent fun a spent b inside follows =>
      ⟨follows.armed spent.1, Nat.le_trans spent.2 (follows.turn spent.1 (ahead b inside))⟩
  simp only [Seen.forTurn, Bool.and_eq_true, later_iff] at again
  have mark : second.mark.turn = last.next.turn := by rw [follows.mark]
  rw [mark] at again
  omega

end

/-! ## The result -/

/-- No agent alerts before the first live board is the baseline, and only an alert joins a burst;
while
an agent stays on the board, it stops needing the owner between two alerts, a block alerted ends
before
one alerts again, and, if no block alerts with a turn end behind the mark's, no turn end alerts
twice. -/
theorem alerted_once (before after : List Input) (name : String) (seen : List Seen)
    (stays : (Store.default.run before).history name after = seen.map some) :
    (∀ earlier input sight, ((Store.default.run earlier).ready input).sight name = some sight →
    sight.alert = true →
      ∃ live ∈ earlier, live.event.isFleet = true) ∧
    (∀ earlier input,
    name ∈ (((Store.default.run earlier).ready input).transitions).1.alerts.burst →
      name ∈ ((Store.default.run earlier).ready input).alerts.burst ∨
        ∃ sight, ((Store.default.run earlier).ready input).sight name = some sight ∧
          sight.alert = true) ∧
    ∀ front first between second back, seen = front ++ first :: (between ++ second :: back) →
      (first.alert = true → second.alert = true → ∃ sight ∈ between, sight.eligible = false) ∧
      (first.alert = true → first.blocked = true → second.forBlock = true →
      ∃ sight ∈ between, sight.blocked = false) ∧
      ((∀ sight ∈ seen, sight.behind = false) → first.forTurn = true → second.forTurn = true →
      first.turn ≠ second.turn) := by
  refine ⟨?_, fun earlier input => Store.transitions_joined _, ?_⟩
  · intro earlier input sight shown alert
    have invariant := Store.armed_run earlier
    have armed := (Seen.moved_of_alert alert).1
    simp only [Store.sight, Option.map_eq_some_iff] at shown
    obtain ⟨a, -, rfl⟩ := shown
    exact invariant.live (invariant.armed ((Store.ready_alerts _ input).2.1.symm.trans armed))
  · intro front first between second back split
    have whole := Store.history_follows (Store.armed_run before).armed stays
    have parts : seen = front ++ (first :: (between ++ [second])) ++ back := by rw [split]; simp
    rw [parts, List.isChain_append, List.isChain_append] at whole
    have chain := whole.1.2.1
    refine ⟨stopped_between chain, unblocked_between chain, ?_⟩
    intro ahead alerted again same
    have inside : ∀ sight ∈ between, sight.behind = false :=
      fun sight inside => ahead sight (by rw [split]; simp [inside])
    have less := turn_between chain inside alerted again
    rw [same] at less
    exact Nat.lt_irrefl _ less

/-- A board with the one agent. -/
def oneAgent (busStatus : String) (turnEndID : Option Nat) : Event :=
  .fleet ⟨[⟨[⟨[.mk "lua" "idle" busStatus turnEndID []]⟩]⟩], []⟩

/-- The agent's turn 3 was read. -/
def readThree : Markers := fun name => if name = "lua" then some (baselineMarker 3) else none

def turnThenBlock : List Input :=
  [oneAgent "listening" (some 3), oneAgent "listening" (some 5), .burst,
    oneAgent "inactive" (some 5), oneAgent "blocked" (some 5)].map
    fun event => ⟨event, readThree⟩

/-- What the events show of the agent. -/
def turnThenBlockSeen : List Seen := (Store.default.history "lua" turnThenBlock).filterMap id

theorem alerted_once_block : (turnThenBlockSeen.map Seen.alert = [false, true, false, false, true] ∧
      ∀ sight ∈ turnThenBlockSeen, sight.behind = false) ∧
    ∀ front first between second back,
      turnThenBlockSeen = front ++ first :: (between ++ second :: back) →
      (first.alert = true → second.alert = true → ∃ sight ∈ between, sight.eligible = false) ∧
      (first.alert = true → first.blocked = true → second.forBlock = true →
      ∃ sight ∈ between, sight.blocked = false) ∧
      ((∀ sight ∈ turnThenBlockSeen, sight.behind = false) → first.forTurn = true →
      second.forTurn = true →
        first.turn ≠ second.turn) :=
  ⟨by decide +kernel,
    (alerted_once [] turnThenBlock "lua" turnThenBlockSeen (by decide +kernel)).2.2⟩

/-! ## A turn end that comes back -/

def turnComesBack : List Input :=
  [oneAgent "listening" (some 3), oneAgent "listening" (some 5), .burst, oneAgent "active" none,
    oneAgent "blocked" none, .burst,
    oneAgent "active" none, oneAgent "listening" (some 5),
      .burst].map fun event => ⟨event, readThree⟩

def Store.notices : Store → List Input → List Notice
  | _, [] => []
  | s, input :: inputs =>
    ((s.apply input).2.filterMap fun
      | .notify notice => some notice
      | _ => none) ++ notices (s.apply input).1 inputs

/-- The agent is on every board, and its turn 5 alerts, and is notified, twice. -/
theorem turn_alerted_again : (Store.default.history "lua" turnComesBack).all Option.isSome = true ∧
    (∃ first second, (Store.default.history "lua" turnComesBack)[1]? = some (some first) ∧
      (Store.default.history "lua" turnComesBack)[7]? = some (some second) ∧
      first.forTurn = true ∧ second.forTurn = true ∧ first.turn = some 5 ∧ second.turn = some 5) ∧
    Store.default.notices turnComesBack = [⟨"agent:lua", "lua · no space", "your turn"⟩,
      ⟨"agent:lua", "lua · no space", "blocked"⟩,
        ⟨"agent:lua", "lua · no space", "your turn"⟩] := by
  refine ⟨by decide +kernel, ?_, by decide +kernel⟩
  refine ⟨⟨some 5, false, true, true, ⟨false, some 3, false⟩⟩,
    ⟨some 5, false, true, true, ⟨false, none, false⟩⟩, ?_⟩
  exact ⟨by decide +kernel, by decide +kernel, rfl, rfl, rfl, rfl⟩

end AiConfig.Herder.NativeAttention
