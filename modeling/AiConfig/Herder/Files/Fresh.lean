import AiConfig.Herder.Files.Index

/-! # A forced file listing is fresh

The mutex makes one entry of `inflight` the root's one running load, so a load that a forced lookup
finds after it waited one out began after the call.  Steps are stamped with the number of the steps
before them; what a lookup is promised is stated of these stamps. -/

namespace AiConfig.Herder.FileIndex

open AiConfig.Lib

section

variable {Path Files Fault : Type}

namespace State

/-! ## What a lookup is promised -/

/-- The newest of the root's loads that ended before a time brought the list. -/
def Newest (loads : List (Load Path Files Fault)) (root : Path) (time : Nat) (files : Files) :
    Prop :=
  ∃ load ∈ loads, load.root = root ∧ ∃ ended, load.ended = some (ended, .ok files) ∧ ended < time ∧
    ∀ other ∈ loads, other.root = root → ∀ e r, other.ended = some (e, r) → e < time → e ≤ ended

/-- A load is not over when the lookup is called, and not begun where the lookup is forced. -/
def Serves (lookup : Lookup Path Files Fault) (load : Load Path Files Fault) : Prop :=
  load.root = lookup.root ∧ (lookup.refresh = true → lookup.called < load.began) ∧
    ∀ e r, load.ended = some (e, r) → lookup.called < e

/-- The four ways in which a lookup returns. -/
inductive Answered (paths : Paths Path) (loads : List (Load Path Files Fault))
    (lookup : Lookup Path Files Fault)
    (time : Nat) : Except (Refusal Fault) Files → Prop where
  | relative (refused : paths.isAbs lookup.path = false) :
      Answered paths loads lookup time (.error .relative)
  | cancelled (past : lookup.cancelled = true) :
      Answered paths loads lookup time (.error .cancelled)
  | cached {files : Files} (plain : lookup.refresh = false)
      (newest : Newest loads lookup.root time files) :
      Answered paths loads lookup time (.ok files)
  | loaded {load : Load Path Files Fault} {e : Nat} {r : Except Fault Files} (has : load ∈ loads)
      (serves : Serves lookup load) (ended : load.ended = some (e, r)) (before : e < time) :
      Answered paths loads lookup time (r.mapError .failed)

/-- The root's running loads began after the call, but for those the set excepts. -/
def Outwaited (loads : List (Load Path Files Fault)) (lookup : Lookup Path Files Fault)
    (except : Nat → Prop) : Prop :=
  ∀ (l : Nat) (load : Load Path Files Fault), loads[l]? = some load → load.root = lookup.root →
    load.ended = none →
    except l ∨ lookup.called < load.began

def Placed (paths : Paths Path) (loads : List (Load Path Files Fault)) (bound : Nat)
    (lookup : Lookup Path Files Fault) : Prop :=
  match lookup.phase with
  | .entered => True
  | .outwaiting running => Outwaited loads lookup (· = running) ∧ ∃ load,
      loads[running]? = some load
  | .relocking => Outwaited loads lookup fun _ => False
  | .waiting current => ∃ load, loads[current]? = some load ∧ Serves lookup load
  | .returned time answer => time < bound ∧ Answered paths loads lookup time answer

/-- Every stamp is below the bound. -/
structure Sound (paths : Paths Path) (bound : Nat) (s : State Path Files Fault) : Prop where
  clocked : ∀ load ∈ s.loads, load.began < bound ∧ ∀ e r, load.ended = some (e, r) →
    load.began < e ∧ e < bound
  running : ∀ root l, s.inflight root = some l ↔ ∃ load, s.loads[l]? = some load ∧
    load.root = root ∧ load.ended = none
  cached : ∀ root entry, s.cache root = some entry → Newest s.loads root bound entry.candidates
  looked : ∀ lookup ∈ s.lookups,
    lookup.called < bound ∧ lookup.root = paths.clean lookup.path ∧
      Placed paths s.loads bound lookup

/-! ## Loads that begin and end -/

/-- A load goes on, or ends at the time. -/
def Continues (time : Nat) (load load' : Load Path Files Fault) : Prop :=
  load'.root = load.root ∧ load'.began = load.began ∧
    (load'.ended = load.ended ∨ load.ended = none ∧ ∃ r, load'.ended = some (time, r))

/-- Between two states, loads may end, and begin, at a time. -/
structure Grown (time : Nat) (loads loads' : List (Load Path Files Fault)) : Prop where
  kept : ∀ (l : Nat) (load : Load Path Files Fault), loads[l]? = some load →
    ∃ load', loads'[l]? = some load' ∧ Continues time load load'
  fresh : ∀ (l : Nat) (load' : Load Path Files Fault), loads'[l]? = some load' →
    (∃ load, loads[l]? = some load) ∨ load'.began = time ∧ load'.ended = none

variable {paths : Paths Path} {s : State Path Files Fault} {lookup : Lookup Path Files Fault}
  {time bound : Nat}
  {loads loads' : List (Load Path Files Fault)}

theorem Grown.refl (loads : List (Load Path Files Fault)) : Grown time loads loads :=
  ⟨fun _ load has => ⟨load, has, rfl, rfl, .inl rfl⟩, fun _ load has => .inl ⟨load, has⟩⟩

theorem Grown.mem (grown : Grown time loads loads')
    {load : Load Path Files Fault}
    (has : load ∈ loads) : ∃ load' ∈ loads', Continues time load load' := by
  obtain ⟨l, at_⟩ := List.mem_iff_getElem?.mp has
  obtain ⟨load', at', kept⟩ := grown.kept l load at_
  exact ⟨load', List.mem_iff_getElem?.mpr ⟨l, at'⟩, kept⟩

/-- A load that had ended by then is as it was. -/
theorem Grown.ended (grown : Grown time loads loads')
    {load' : Load Path Files Fault} (has : load' ∈ loads') {e : Nat} {r : Except Fault Files}
    (ended : load'.ended = some (e, r)) (before : e < time) :
    ∃ load ∈ loads, load.root = load'.root ∧ load.ended = some (e, r) := by
  obtain ⟨l, at'⟩ := List.mem_iff_getElem?.mp has
  obtain ⟨load, at_⟩ | ⟨-, running⟩ := grown.fresh l load' at'
  · obtain ⟨again, same, root, -, kept⟩ := grown.kept l load at_
    obtain rfl : again = load' := by simpa [at'] using same.symm
    refine ⟨load, List.mem_iff_getElem?.mpr ⟨l, at_⟩, root.symm, ?_⟩
    obtain kept | ⟨-, r', now⟩ := kept
    · rw [← kept, ended]
    · rw [ended] at now
      simp only [Option.some.injEq, Prod.mk.injEq] at now
      omega
  · simp [running] at ended

theorem Newest.grown (grown : Grown time loads loads') {root : Path} {files : Files}
    (early : bound ≤ time)
    (newest : Newest loads root bound files) : Newest loads' root bound files := by
  obtain ⟨load, has, same, e, ended, before, last⟩ := newest
  obtain ⟨load', has', root', -, kept⟩ := grown.mem has
  have ended' : load'.ended = some (e, .ok files) := by
    obtain kept | ⟨none, -⟩ := kept
    · rw [kept, ended]
    · simp [none] at ended
  refine ⟨load', has', root'.trans same, e, ended', before,
    fun other hasOther of e' r past sooner => ?_⟩
  obtain ⟨old, hasOld, rootOld, endedOld⟩ := grown.ended hasOther past (by omega)
  exact last old hasOld (rootOld.trans of) e' r endedOld sooner

/-- Nothing ends between the two bounds. -/
theorem Newest.later {root : Path} {files : Files} {bound' : Nat} (above : bound ≤ bound')
    (clocked : ∀ load ∈ loads, load.root = root → ∀ e r, load.ended = some (e, r) → e < bound)
    (newest : Newest loads root bound files) : Newest loads root bound' files := by
  obtain ⟨load, has, same, e, ended, before, last⟩ := newest
  exact ⟨load, has, same, e, ended, by omega, fun other hasOther of e' r past _ =>
    last other hasOther of e' r past (clocked other hasOther of e' r past)⟩

theorem Serves.grown {load load' : Load Path Files Fault} (serves : Serves lookup load)
    (called : lookup.called < time)
    (continues : Continues time load load') : Serves lookup load' := by
  obtain ⟨root, began, kept⟩ := continues
  refine ⟨root.trans serves.1, fun forced => began ▸ serves.2.1 forced, fun e r ended => ?_⟩
  obtain kept | ⟨-, r', now⟩ := kept
  · exact serves.2.2 e r (kept ▸ ended)
  · rw [ended] at now
    simp only [Option.some.injEq, Prod.mk.injEq] at now
    omega

theorem Answered.grown (grown : Grown time loads loads') (called : lookup.called < time)
    (early : bound ≤ time)
    {answer : Except (Refusal Fault) Files} (answered : Answered paths loads lookup bound answer) :
    Answered paths loads' lookup bound answer := by
  cases answered with
  | relative refused => exact .relative refused
  | cancelled past => exact .cancelled past
  | cached plain newest => exact .cached plain (newest.grown grown early)
  | @loaded load e r has serves ended before =>
    obtain ⟨load', has', continues⟩ := grown.mem has
    refine .loaded has' (serves.grown called continues) ?_ before
    obtain kept | ⟨none, -⟩ := continues.2.2
    · rw [kept, ended]
    · simp [none] at ended

theorem Outwaited.grown (grown : Grown time loads loads') (called : lookup.called < time)
    {except : Nat → Prop}
    (outwaited : Outwaited loads lookup except) : Outwaited loads' lookup except := by
  intro l load' has' of running
  obtain ⟨load, has⟩ | ⟨began, -⟩ := grown.fresh l load' has'
  · obtain ⟨again, same, root, began, kept⟩ := grown.kept l load has
    obtain rfl : again = load' := by simpa [has'] using same.symm
    have open_ : load.ended = none := by
      obtain kept | ⟨none, -⟩ := kept
      · rw [← kept, running]
      · exact none
    rw [began]
    exact outwaited l load has (root.symm.trans of) open_
  · omega

theorem Placed.grown (grown : Grown time loads loads') (called : lookup.called < time)
    {bound' : Nat}
    (early : bound ≤ time) (above : bound ≤ bound') (placed : Placed paths loads bound lookup) :
    Placed paths loads' bound' lookup := by
  obtain ⟨path, root, refresh, since, cancelled, phase⟩ := lookup
  cases phase with
  | entered => trivial
  | outwaiting running =>
    obtain ⟨outwaited, load, has⟩ := placed
    obtain ⟨load', has', -⟩ := grown.kept running load has
    exact ⟨outwaited.grown grown called, load', has'⟩
  | relocking => exact Outwaited.grown grown called placed
  | waiting current =>
    obtain ⟨load, has, serves⟩ := placed
    obtain ⟨load', has', continues⟩ := grown.kept current load has
    exact ⟨load', has', serves.grown called continues⟩
  | returned at_ answer =>
    obtain ⟨before, answered⟩ := placed
    exact ⟨by omega, answered.grown grown called (by omega)⟩

/-! ## The steps -/

theorem Sound.later {bound' : Nat} (sound : Sound paths bound s) (above : bound ≤ bound') :
    Sound paths bound' s where
  clocked load has := by
    obtain ⟨began, ended⟩ := sound.clocked load has
    exact ⟨by omega, fun e r past => ⟨(ended e r past).1, by have := (ended e r past).2; omega⟩⟩
  running := sound.running
  cached root entry holds := (sound.cached root entry holds).later above fun load has _ e r past =>
    ((sound.clocked load has).2 e r past).2
  looked lookup has := by
    obtain ⟨called, clean, placed⟩ := sound.looked lookup has
    exact ⟨by omega, clean, placed.grown (Grown.refl s.loads) called (Nat.le_refl _) above⟩

/-- One lookup goes on. -/
theorem Sound.phased (sound : Sound paths bound s) (k : Nat) (phase : Phase Files Fault)
    (placed : ∀ lookup, s.lookups[k]? = some lookup →
    Placed paths s.loads bound { lookup with phase := phase }) :
    Sound paths bound (s.phased k phase) where
  clocked := sound.clocked
  running := sound.running
  cached := sound.cached
  looked lookup has := by
    obtain ⟨i, at_⟩ := List.mem_iff_getElem?.mp has
    rw [State.phased, List.getElem?_modify] at at_
    obtain ⟨old, found, rfl⟩ := Option.map_eq_some_iff.mp at_
    obtain ⟨called, clean, was⟩ := sound.looked old (List.mem_of_getElem? found)
    split
    · next same =>
      subst same
      exact ⟨called, clean, placed old found⟩
    · exact ⟨called, clean, was⟩

theorem Sound.cancelled (sound : Sound paths bound s) (k : Nat) :
    Sound paths bound
      { s with lookups := s.lookups.modify k fun lookup => { lookup with cancelled := true } } where
  clocked := sound.clocked
  running := sound.running
  cached := sound.cached
  looked lookup has := by
    obtain ⟨i, at_⟩ := List.mem_iff_getElem?.mp has
    rw [List.getElem?_modify] at at_
    obtain ⟨old, found, rfl⟩ := Option.map_eq_some_iff.mp at_
    obtain ⟨called, clean, was⟩ := sound.looked old (List.mem_of_getElem? found)
    split
    · obtain ⟨path, root, refresh, since, cancelled, phase⟩ := old
      refine ⟨called, clean, ?_⟩
      cases phase with
      | returned time answer =>
        refine ⟨was.1, ?_⟩
        cases was.2 with
        | relative refused => exact .relative refused
        | cancelled past => exact .cancelled rfl
        | cached plain newest => exact .cached plain newest
        | loaded inside serves ended before => exact .loaded inside serves ended before
      | _ => exact was
    · exact ⟨called, clean, was⟩

theorem Sound.called (sound : Sound paths s.now s) (path : Path) (refresh : Bool) :
    Sound paths (s.now + 1) (s.called paths path refresh) where
  clocked := (sound.later (Nat.le_succ _)).clocked
  running := sound.running
  cached := (sound.later (Nat.le_succ _)).cached
  looked lookup has := by
    obtain old | rfl := List.mem_append.mp has |>.imp_right List.mem_singleton.mp
    · exact (sound.later (Nat.le_succ _)).looked lookup old
    · refine ⟨Nat.lt_succ_self _, rfl, ?_⟩
      by_cases absolute : paths.isAbs path = true
      · simp only [Placed, absolute, if_true]
      · simp only [Placed, absolute, Bool.false_eq_true, if_false]
        exact ⟨Nat.lt_succ_self _, .relative (by simpa using absolute)⟩

variable [DecidableEq Path]

theorem started_grown (root : Path) (s : State Path Files Fault) :
    Grown s.now s.loads (s.startLocked root).loads where
  kept l load has :=
    ⟨load, List.getElem?_append_left (List.getElem?_eq_some_iff.mp has).1 ▸ has, rfl, rfl, .inl rfl⟩
  fresh l load' has := by
    simp only [startLocked, List.getElem?_append] at has
    split at has
    · exact .inl ⟨load', has⟩
    · obtain rfl := List.mem_singleton.mp (List.mem_of_getElem? has)
      exact .inr ⟨rfl, rfl⟩

theorem Sound.started (sound : Sound paths s.now s) {root : Path} (free : s.inflight root = none) :
    Sound paths (s.now + 1) (s.startLocked root) where
  clocked load has := by
    obtain old | rfl := List.mem_append.mp has |>.imp_right List.mem_singleton.mp
    · exact (sound.later (Nat.le_succ _)).clocked load old
    · exact ⟨Nat.lt_succ_self _, by simp⟩
  running root' l := by
    by_cases same : root' = root
    · subst same
      simp only [startLocked, Function.update_self, Option.some.injEq]
      constructor
      · rintro rfl
        exact ⟨_, List.getElem?_concat_length, rfl, rfl⟩
      · rintro ⟨load, has, of, open_⟩
        rw [List.getElem?_append] at has
        split at has
        · have busy := (sound.running root' l).mpr ⟨load, has, of, open_⟩
          simp [free] at busy
        · have := (List.getElem?_eq_some_iff.mp has).1
          simp only [List.length_singleton] at this
          omega
    · simp only [startLocked, Function.update_of_ne same, sound.running root' l]
      constructor
      · rintro ⟨load, has, of, open_⟩
        exact ⟨load, List.getElem?_append_left (List.getElem?_eq_some_iff.mp has).1 ▸ has, of,
          open_⟩
      · rintro ⟨load, has, of, open_⟩
        rw [List.getElem?_append] at has
        split at has
        · exact ⟨load, has, of, open_⟩
        · obtain rfl := List.mem_singleton.mp (List.mem_of_getElem? has)
          exact absurd of.symm same
  cached root' entry holds := by
    have newest := (sound.cached root' entry holds).grown (started_grown root s) (Nat.le_refl _)
    refine newest.later (Nat.le_succ _) fun load has _ e r past => ?_
    obtain old | rfl := List.mem_append.mp has |>.imp_right List.mem_singleton.mp
    · exact ((sound.clocked load old).2 e r past).2
    · simp at past
  looked lookup has := by
    obtain ⟨called, clean, placed⟩ := sound.looked lookup has
    exact ⟨by omega, clean, placed.grown (started_grown root s) called (Nat.le_refl _)
      (Nat.le_succ _)⟩

theorem finished_grown {l : Nat} {root : Path} {began : Nat}
    (has : s.loads[l]? = some ⟨root, began, none⟩)
    (result : Except Fault Files) (clock : Int) :
    Grown s.now s.loads (s.finished l root result clock).loads where
  kept i load at_ := by
    rw [finished, List.getElem?_modify, at_]
    refine ⟨_, rfl, ?_⟩
    split
    · next same =>
      subst same
      obtain rfl : load = ⟨root, began, none⟩ := by simpa [at_] using has
      exact ⟨rfl, rfl, .inr ⟨rfl, result, rfl⟩⟩
    · exact ⟨rfl, rfl, .inl rfl⟩
  fresh i load' at_ := by
    rw [finished, List.getElem?_modify] at at_
    obtain ⟨old, found, -⟩ := Option.map_eq_some_iff.mp at_
    exact .inl ⟨old, found⟩

/-- What the loads are after one ended. -/
theorem finished_loads {l : Nat} {root : Path} {began : Nat}
    (has : s.loads[l]? = some ⟨root, began, none⟩)
    (result : Except Fault Files) (clock : Int) (i : Nat) (load : Load Path Files Fault) :
    (s.finished l root result clock).loads[i]? = some load ↔
      i = l ∧ load = ⟨root, began, some (s.now, result)⟩ ∨ i ≠ l ∧ s.loads[i]? = some load := by
  rw [finished, List.getElem?_modify]
  by_cases same : l = i
  · subst same
    simp [has, eq_comm]
  · simp [same, Ne.symm same]

theorem Sound.finished (sound : Sound paths s.now s) {l : Nat} {root : Path} {began : Nat}
    (has : s.loads[l]? = some ⟨root, began, none⟩) (result : Except Fault Files) (clock : Int) :
    Sound paths (s.now + 1) (s.finished l root result clock) where
  clocked load inside := by
    obtain ⟨i, at_⟩ := List.mem_iff_getElem?.mp inside
    obtain ⟨-, rfl⟩ | ⟨-, old⟩ := (finished_loads has result clock i load).mp at_
    · have before : began < s.now := (sound.clocked _ (List.mem_of_getElem? has)).1
      refine ⟨Nat.lt_succ_of_lt before, fun e r past => ?_⟩
      simp only [Option.some.injEq, Prod.mk.injEq] at past
      exact past.1 ▸ ⟨before, Nat.lt_succ_self _⟩
    · exact (sound.later (Nat.le_succ _)).clocked load (List.mem_of_getElem? old)
  running root' i := by
    by_cases same : root' = root
    · subst same
      show Function.update s.inflight root' none root' = some i ↔ _
      rw [Function.update_self]
      refine iff_of_false (by simp) ?_
      rintro ⟨load, at_, of, open_⟩
      obtain ⟨-, rfl⟩ | ⟨other, old⟩ := (finished_loads has result clock i load).mp at_
      · simp at open_
      -- A root has one load under way, so no other of its loads is open.
      · have one := (sound.running root' l).mpr ⟨_, has, rfl, rfl⟩
        have two := (sound.running root' i).mpr ⟨load, old, of, open_⟩
        rw [one] at two
        exact other (Option.some.inj two).symm
    · show Function.update s.inflight root none root' = some i ↔ _
      rw [Function.update_of_ne same]
      refine (sound.running root' i).trans
        (exists_congr fun load => and_congr_left fun ⟨of, open_⟩ => ?_)
      rw [finished_loads has result clock i load]
      constructor
      · intro old
        refine .inr ⟨?_, old⟩
        rintro rfl
        obtain rfl : load = ⟨root, began, none⟩ := by simpa [old] using has
        exact same of.symm
      · rintro (⟨-, rfl⟩ | ⟨-, old⟩)
        · exact absurd of.symm same
        · exact old
  cached root' entry holds := by
    by_cases same : root' = root
    · subst same
      simp only [State.finished, Function.update_self] at holds
      cases result with
      | error fault => simp [Except.toOption] at holds
      | ok files =>
        obtain rfl := Option.some.inj holds
        have here : (s.finished l root' (.ok files) clock).loads[l]? =
            some ⟨root', began, some (s.now, .ok files)⟩ :=
          (finished_loads has _ clock l _).mpr (.inl ⟨rfl, rfl⟩)
        exact ⟨_, List.mem_of_getElem? here, rfl, s.now, rfl, Nat.lt_succ_self _,
          fun _ _ _ _ _ _ before => Nat.le_of_lt_succ before⟩
    · simp only [State.finished, Function.update_of_ne same] at holds
      -- Entries of other roots are as new as they were.
      have newest :=
        (sound.cached root' entry holds).grown (finished_grown has result clock) (Nat.le_refl _)
      refine newest.later (Nat.le_succ _) fun load inside of e r past => ?_
      obtain ⟨i, at_⟩ := List.mem_iff_getElem?.mp inside
      obtain ⟨-, rfl⟩ | ⟨-, old⟩ := (finished_loads has result clock i load).mp at_
      · exact absurd of.symm same
      · exact ((sound.clocked load (List.mem_of_getElem? old)).2 e r past).2
  looked lookup inside := by
    obtain ⟨called, clean, placed⟩ := sound.looked lookup inside
    exact ⟨by omega, clean, placed.grown (finished_grown has result clock) called (Nat.le_refl _)
      (Nat.le_succ _)⟩

/-- A lookup joins a load that is not over, and began after the call where the lookup is forced. -/
theorem Sound.join (sound : Sound paths s.now s) {k : Nat} (at_ : s.lookups[k]? = some lookup)
    (outwaited : lookup.refresh = true → Outwaited s.loads lookup fun _ => False) :
    Sound paths (s.now + 1) (s.join k lookup.root) := by
  have called := (sound.looked lookup (List.mem_of_getElem? at_)).1
  unfold State.join
  split
  · next running busy =>
    obtain ⟨load, has, of, open_⟩ := (sound.running lookup.root running).mp busy
    refine (sound.later (Nat.le_succ _)).phased k _ fun other found => ?_
    obtain rfl : lookup = other := by simpa [at_] using found
    exact ⟨load, has, of, fun forced =>
      (outwaited forced running load has of open_).resolve_left id, by simp [open_]⟩
  · next free =>
    refine (sound.started free).phased k _ fun other found => ?_
    obtain rfl : lookup = other := by simpa [at_, startLocked] using found
    exact ⟨⟨lookup.root, s.now, none⟩, List.getElem?_concat_length, rfl, fun _ => called, by simp⟩

theorem Sound.forced (sound : Sound paths s.now s) {k : Nat} (at_ : s.lookups[k]? = some lookup) :
    Sound paths (s.now + 1) (s.forced k lookup.root) := by
  unfold State.forced
  split
  · next running busy =>
    obtain ⟨load, has, of, open_⟩ := (sound.running lookup.root running).mp busy
    refine (sound.later (Nat.le_succ _)).phased k _ fun other found => ?_
    obtain rfl : lookup = other := by simpa [at_] using found
    refine ⟨fun l load' has' of' open' => .inl ?_, load, has⟩
    have same := (sound.running lookup.root l).mpr ⟨load', has', of', open'⟩
    exact Option.some.inj (same.symm.trans busy)
  · next free =>
    refine sound.join at_ fun _ l load has of open_ => ?_
    have busy := (sound.running lookup.root l).mpr ⟨load, has, of, open_⟩
    simp [free] at busy

theorem Sound.plain (sound : Sound paths s.now s) {k : Nat} (at_ : s.lookups[k]? = some lookup)
    (unforced : lookup.refresh = false) (ttl clock : Int) :
    Sound paths (s.now + 1) (s.plain ttl clock k lookup.root) := by
  unfold State.plain
  split
  · next entry holds =>
    have newest := sound.cached lookup.root entry holds
    split
    · next stale =>
      refine (sound.started (Option.isNone_iff_eq_none.mp stale.2)).phased k _ fun other found => ?_
      obtain rfl : lookup = other := by simpa [at_, startLocked] using found
      exact ⟨Nat.lt_succ_self _, .cached unforced
        (newest.grown (started_grown _ s) (Nat.le_refl _))⟩
    · refine (sound.later (Nat.le_succ _)).phased k _ fun other found => ?_
      obtain rfl : lookup = other := by simpa [at_] using found
      exact ⟨Nat.lt_succ_self _, .cached unforced newest⟩
  · exact sound.join at_ (by simp [unforced])

omit [DecidableEq Path] in
theorem published_ended {l : Nat} {result : Except Fault Files}
    (published : s.published l = some result) :
    ∃ load e, s.loads[l]? = some load ∧ load.ended = some (e, result) := by
  obtain ⟨⟨e, r⟩, ended, rfl⟩ := Option.map_eq_some_iff.mp published
  obtain ⟨load, has, past⟩ := Option.bind_eq_some_iff.mp ended
  exact ⟨load, e, has, past⟩

theorem Sound.act (sound : Sound paths s.now s) {ttl : Int} {event : Event Path Files Fault}
    {s' : State Path Files Fault}
    (taken : s.act paths ttl event = some s') : Sound paths (s.now + 1) s' := by
  cases event with
  | call path refresh =>
    obtain rfl := Option.some.inj taken
    exact sound.called path refresh
  | lock k clock =>
    simp only [State.act] at taken
    split at taken
    · next path root refresh since cancelled at_ =>
      obtain rfl := Option.some.inj taken
      split
      · exact sound.forced at_
      · next unforced => exact sound.plain at_ (by simpa using unforced) ttl clock
    · cases taken
  | outwaited k =>
    simp only [State.act] at taken
    split at taken
    · next path root refresh since cancelled running at_ =>
      obtain ⟨result, published, rfl⟩ := Option.map_eq_some_iff.mp taken
      obtain ⟨load, e, has, ended⟩ := published_ended published
      refine (sound.later (Nat.le_succ _)).phased k _ fun other found => ?_
      obtain rfl := Option.some.inj (at_.symm.trans found)
      intro l load' has' of open_
      -- A load that was outwaited has ended, so the one that is open came later.
      refine .inr
        (((sound.looked _ (List.mem_of_getElem? at_)).2.2.1 l load' has' of open_).resolve_left ?_)
      rintro rfl
      obtain rfl := Option.some.inj (has.symm.trans has')
      simp [ended] at open_
    · cases taken
  | relock k =>
    simp only [State.act] at taken
    split at taken
    · next path root refresh since cancelled at_ =>
      obtain rfl := Option.some.inj taken
      exact sound.join at_ fun _ => (sound.looked _ (List.mem_of_getElem? at_)).2.2
    · cases taken
  | done k =>
    simp only [State.act] at taken
    split at taken
    · next path root refresh since cancelled current at_ =>
      obtain ⟨result, published, rfl⟩ := Option.map_eq_some_iff.mp taken
      obtain ⟨load, e, has, ended⟩ := published_ended published
      refine (sound.later (Nat.le_succ _)).phased k _ fun other found => ?_
      obtain rfl := Option.some.inj (at_.symm.trans found)
      obtain ⟨load', has', serves⟩ := (sound.looked _ (List.mem_of_getElem? at_)).2.2
      obtain rfl := Option.some.inj (has.symm.trans has')
      have inside := List.mem_of_getElem? has
      exact ⟨Nat.lt_succ_self _, .loaded inside serves ended
        ((sound.clocked load inside).2 e result ended).2⟩
    · cases taken
  | cancel k =>
    obtain rfl := Option.some.inj taken
    exact (sound.later (Nat.le_succ _)).cancelled k
  | giveUp k =>
    have gone {running : Lookup Path Files Fault} (at_ : s.lookups[k]? = some running)
      (past : running.cancelled = true) :
        Sound paths (s.now + 1) (s.phased k (.returned s.now (.error .cancelled))) := by
      refine (sound.later (Nat.le_succ _)).phased k _ fun other found => ?_
      obtain rfl := Option.some.inj (at_.symm.trans found)
      exact ⟨Nat.lt_succ_self _, .cancelled past⟩
    simp only [State.act] at taken
    split at taken
    · next at_ =>
      obtain rfl := Option.some.inj taken
      exact gone at_ rfl
    · next at_ =>
      obtain rfl := Option.some.inj taken
      exact gone at_ rfl
    · cases taken
  | loadEnds l result clock =>
    simp only [State.act] at taken
    split at taken
    · next root began has =>
      obtain rfl := Option.some.inj taken
      exact sound.finished has result clock
    · cases taken

theorem act_now {ttl : Int} {event : Event Path Files Fault} {s' : State Path Files Fault}
    (taken : s.act paths ttl event = some s') : s'.now = s.now := by
  have joined (k : Nat) (root : Path) : (s.join k root).now = s.now := by
    unfold State.join
    split <;> rfl
  have locked (k : Nat) (root : Path) (refresh : Bool) (clock : Int) :
      (if refresh then s.forced k root else s.plain ttl clock k root).now = s.now := by
    split
    · unfold State.forced
      split
      · rfl
      · exact joined k root
    · unfold State.plain
      split
      · split <;> rfl
      · exact joined k root
  cases event <;> simp only [State.act] at taken
  case call => exact Option.some.inj taken ▸ rfl
  case cancel => exact Option.some.inj taken ▸ rfl
  case lock =>
    split at taken
    · exact Option.some.inj taken ▸ locked _ _ _ _
    · cases taken
  case relock =>
    split at taken
    · exact Option.some.inj taken ▸ joined _ _
    · cases taken
  case loadEnds =>
    split at taken
    · exact Option.some.inj taken ▸ rfl
    · cases taken
  case giveUp =>
    split at taken
    · exact Option.some.inj taken ▸ rfl
    · exact Option.some.inj taken ▸ rfl
    · cases taken
  all_goals
    split at taken
    · obtain ⟨_, -, rfl⟩ := Option.map_eq_some_iff.mp taken
      rfl
    · cases taken

theorem sound_invariant (paths : Paths Path) (ttl : Int) :
    (system paths ttl).Invariant fun s : State Path Files Fault => Sound paths s.now s where
  initial s start := by
    subst start
    exact ⟨by simp [empty], by simp [empty], by simp [empty], by simp [empty]⟩
  step s event s' sound taken := by
    obtain ⟨next, acted, rfl⟩ := Option.map_eq_some_iff.mp taken
    have after := sound.act acted
    rw [show next.tick.now = s.now + 1 from congrArg (· + 1) (act_now acted)]
    exact ⟨after.clocked, after.running, after.cached, after.looked⟩

/-! ## Lookups that wait -/

/-- Only its own wake, or its own context, ends a lookup's wait. -/
theorem waiting_act {ttl : Int} {event : Event Path Files Fault} {s' : State Path Files Fault}
    (taken : s.act paths ttl event = some s') {k current : Nat} (at_ : s.lookups[k]? = some lookup)
    (waits : lookup.phase = .waiting current) (woken : event ≠ .done k) (left : event ≠ .giveUp k) :
    ∃ after, s'.lookups[k]? = some after ∧ after.phase = .waiting current ∧
      (after.cancelled = lookup.cancelled ∨ event = .cancel k) := by
  have other {i : Nat} {phase : Phase Files Fault} {t : State Path Files Fault}
    (same : t.lookups = s.lookups)
      (differs : i ≠ k) : (t.phased i phase).lookups[k]? = some lookup := by
    simp [phased, differs, same, at_]
  have differs {i : Nat} {busy : Lookup Path Files Fault} (found : s.lookups[i]? = some busy)
      (phase : busy.phase ≠ .waiting current) : i ≠ k := by
    rintro rfl
    obtain rfl := Option.some.inj (at_.symm.trans found)
    exact phase waits
  -- No other lookup moves this one, which sits at its own place of the list.
  have joined {i : Nat} (root : Path) (apart : i ≠ k) :
      (s.join i root).lookups[k]? = some lookup := by
    unfold State.join
    split <;> exact other rfl apart
  have same (found : s'.lookups[k]? = some lookup) : ∃ after, s'.lookups[k]? = some after ∧
      after.phase = .waiting current ∧ (after.cancelled = lookup.cancelled ∨ event = .cancel k) :=
    ⟨lookup, found, waits, .inl rfl⟩
  cases event with
  | call path refresh =>
    obtain rfl := Option.some.inj taken
    exact same (by rw [State.called, List.getElem?_append_left (List.getElem?_eq_some_iff.mp at_).1,
      at_])
  | lock i clock =>
    simp only [State.act] at taken
    split at taken
    · next path root refresh since cancelled found =>
      obtain rfl := Option.some.inj taken
      have apart := differs found (by simp)
      refine same ?_
      split
      · unfold State.forced
        split
        · exact other rfl apart
        · exact joined root apart
      · unfold State.plain
        split
        · split <;> exact other rfl apart
        · exact joined root apart
    · cases taken
  | outwaited i =>
    simp only [State.act] at taken
    split at taken
    · next found =>
      obtain ⟨_, -, rfl⟩ := Option.map_eq_some_iff.mp taken
      exact same (other rfl (differs found (by simp)))
    · cases taken
  | relock i =>
    simp only [State.act] at taken
    split at taken
    · next found =>
      obtain rfl := Option.some.inj taken
      exact same (joined _ (differs found (by simp)))
    · cases taken
  | done i =>
    simp only [State.act] at taken
    split at taken
    · obtain ⟨_, -, rfl⟩ := Option.map_eq_some_iff.mp taken
      exact same (other rfl fun is => woken (is ▸ rfl))
    · cases taken
  | cancel i =>
    obtain rfl := Option.some.inj taken
    by_cases own : i = k
    · subst own
      exact ⟨{ lookup with cancelled := true }, by simp [at_], waits, .inr rfl⟩
    · exact same (by simp [own, at_])
  | giveUp i =>
    have apart : i ≠ k := fun is => left (is ▸ rfl)
    simp only [State.act] at taken
    split at taken
    · exact same (Option.some.inj taken ▸ other rfl apart)
    · exact same (Option.some.inj taken ▸ other rfl apart)
    · cases taken
  | loadEnds l result clock =>
    simp only [State.act] at taken
    split at taken
    · exact same (Option.some.inj taken ▸ at_)
    · cases taken

theorem waiting_run {ttl : Int} {events : List (Event Path Files Fault)}
    {t : State Path Files Fault}
    (run : (system paths ttl).Run s events t) {k current : Nat} (at_ : s.lookups[k]? = some lookup)
    (waits : lookup.phase = .waiting current) (woken : .done k ∉ events)
    (left : .giveUp k ∉ events) :
    ∃ after, t.lookups[k]? = some after ∧ after.phase = .waiting current ∧
      (after.cancelled = lookup.cancelled ∨ .cancel k ∈ events) := by
  induction run with
  | refl => exact ⟨lookup, at_, waits, .inl rfl⟩
  | @snoc _ _ events event before taken inductionHypothesis =>
    simp only [List.mem_append, List.mem_singleton, not_or] at woken left
    obtain ⟨between, found, still, same⟩ := inductionHypothesis woken.1 left.1
    obtain ⟨next, acted, rfl⟩ := Option.map_eq_some_iff.mp taken
    obtain ⟨after, there, waiting, kept⟩ :=
      waiting_act acted found still (Ne.symm woken.2) (Ne.symm left.2)
    refine ⟨after, there, waiting, ?_⟩
    obtain kept | rfl := kept
    · exact same.imp kept.trans fun cancelled => List.mem_append_left _ cancelled
    · exact .inr (by simp)

/-- The wait of a lookup on a load: it lasts, the load can end, and its end is the lookup's. -/
structure Awaits (paths : Paths Path) (ttl : Int) (s : State Path Files Fault) (k current : Nat) :
    Prop where
  lasts : ∀ events t, (system paths ttl).Run s events t → .done k ∉ events → .giveUp k ∉ events →
    ∃ lookup, t.lookups[k]? = some lookup ∧ lookup.phase = .waiting current
  ends : ∀ load, s.loads[current]? = some load → load.ended = none →
    ∀ result clock, (s.act paths ttl (.loadEnds current result clock)).isSome
  answers : ∀ load e result, s.loads[current]? = some load → load.ended = some (e, result) →
    s.act paths ttl (.done k) = some (s.phased k (.returned s.now (result.mapError .failed)))
  alone : ∀ lookup, s.lookups[k]? = some lookup → lookup.cancelled = false →
    s.act paths ttl (.giveUp k) = none

theorem awaits {ttl : Int} {k current : Nat} (at_ : s.lookups[k]? = some lookup)
    (waits : lookup.phase = .waiting current) :
    Awaits paths ttl s k current where
  lasts events t run woken left := by
    obtain ⟨after, found, still, -⟩ := waiting_run run at_ waits woken left
    exact ⟨after, found, still⟩
  ends load has open_ result clock := by
    obtain ⟨root, began, ended⟩ := load
    obtain rfl : ended = none := open_
    simp [State.act, has]
  answers load e result has ended := by
    obtain ⟨path, root, refresh, since, cancelled, phase⟩ := lookup
    obtain rfl : phase = .waiting current := waits
    simp [State.act, at_, published, has, ended]
  alone other found uncancelled := by
    obtain rfl := Option.some.inj (at_.symm.trans found)
    obtain ⟨path, root, refresh, since, cancelled, phase⟩ := lookup
    obtain rfl : phase = .waiting current := waits
    obtain rfl : cancelled = false := uncancelled
    simp [State.act, at_]

/-! ## Every schedule -/

structure Fresh (paths : Paths Path) (ttl : Int) (s : State Path Files Fault) : Prop where
  one : ∀ (i j : Nat) (load other : Load Path Files Fault), s.loads[i]? = some load →
    s.loads[j]? = some other →
    load.root = other.root → load.ended = none → other.ended = none → i = j
  rooted : ∀ lookup ∈ s.lookups, lookup.root = paths.clean lookup.path
  forced : ∀ lookup ∈ s.lookups, lookup.refresh = true → ∀ time files,
    lookup.phase = .returned time (.ok files) →
    ∃ load ∈ s.loads, load.root = lookup.root ∧ lookup.called < load.began ∧ ∃ e < time,
      load.ended = some (e, .ok files)
  plain : ∀ lookup ∈ s.lookups, ∀ time answer, lookup.phase = .returned time answer →
    Answered paths s.loads lookup time answer
  waiting : ∀ (k : Nat) (lookup : Lookup Path Files Fault) (current : Nat),
    s.lookups[k]? = some lookup →
    lookup.phase = .waiting current → (∃ load, s.loads[current]? = some load ∧ Serves lookup load) ∧
      Awaits paths ttl s k current

theorem never_stale {ttl : Int} (reachable : (system paths ttl).Reachable s) :
    Fresh paths ttl s := by
  have sound := (sound_invariant paths ttl).reachable reachable
  have answered (lookup) (inside : lookup ∈ s.lookups) (time answer)
    (returned : lookup.phase = .returned time answer) :
      Answered paths s.loads lookup time answer := by
    have placed := (sound.looked lookup inside).2.2
    rw [Placed, returned] at placed
    exact placed.2
  refine ⟨fun i j load other has has' same open_ open' => ?_, fun lookup inside =>
    (sound.looked lookup inside).2.1, ?_,
    answered, fun k lookup current at_ waits => ?_⟩
  · have left := (sound.running load.root i).mpr ⟨load, has, rfl, open_⟩
    have right := (sound.running load.root j).mpr ⟨other, has', same.symm, open'⟩
    exact Option.some.inj (left.symm.trans right)
  · intro lookup inside forced time files returned
    have how := answered lookup inside time _ returned
    generalize is : (Except.ok files : Except (Refusal Fault) Files) = answer at how
    cases how with
    | relative refused => cases is
    | cancelled past => cases is
    | cached plain => simp [forced] at plain
    | @loaded load e r has serves ended before =>
      cases r with
      | error fault => cases is
      | ok list =>
        cases is
        exact ⟨load, has, serves.1, serves.2.1 forced, e, before, ended⟩
  · have placed := (sound.looked lookup (List.mem_of_getElem? at_)).2.2
    rw [Placed, waits] at placed
    exact ⟨placed, awaits at_ waits⟩

/-- The steps from an index without a list. -/
def play (paths : Paths Path) (ttl : Int) (events : List (Event Path Files Fault)) :
    Option (State Path Files Fault) :=
  events.foldlM (fun s event => (s.act paths ttl event).map tick) empty

theorem play_reachable {ttl : Int} {events : List (Event Path Files Fault)}
    (played : play paths ttl events = some s) :
    (system paths ttl).Reachable s := by
  suffices steps : ∀ start : State Path Files Fault, (system paths ttl).Reachable start →
      events.foldlM (fun s event => (s.act paths ttl event).map tick) start = some s →
        (system paths ttl).Reachable s from
    steps empty (.initial rfl) played
  clear played
  induction events with
  | nil =>
    intro start before ran
    exact Option.some.inj ran ▸ before
  | cons event events inductionHypothesis =>
    intro start before ran
    rw [List.foldlM_cons] at ran
    obtain ⟨next, taken, rest⟩ := Option.bind_eq_some_iff.mp ran
    exact inductionHypothesis next (.step before taken) rest

end State

/-- Paths of one root, which the clean form keeps. -/
def absolutePaths : Paths (List Char) := ⟨fun path => path.head? = some '/', id⟩

/-- A forced lookup waits out the load that a caller left, and shares the next one. -/
def outwaitedRun : List (Event (List Char) (List Nat) Unit) :=
  let root := ['/', 'r']
  [.call root false, .lock 0 0, .call root true, .lock 1 0, .cancel 0, .giveUp 0,
    .loadEnds 0 (.ok [1]) 10, .outwaited 1,
    .call root true, .lock 2 10, .relock 1, .call root false, .lock 3 11,
      .loadEnds 1 (.ok [1, 2]) 20, .done 1, .done 2]

theorem never_stale_outwaited : ∃ s : State (List Char) (List Nat) Unit,
    State.play absolutePaths 5 outwaitedRun = some s ∧ s.Fresh absolutePaths 5 ∧
      s.lookups.map Lookup.phase = [.returned 5 (.error .cancelled), .returned 14 (.ok [1, 2]),
        .returned 15 (.ok [1, 2]), .returned 12 (.ok [1])] :=
  ⟨_, rfl, State.never_stale (State.play_reachable
    (show State.play absolutePaths 5 outwaitedRun = _ from rfl)), rfl⟩

end

end AiConfig.Herder.FileIndex
