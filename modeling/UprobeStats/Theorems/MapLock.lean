import UprobeStats.MapLock

/-! The locks of maps. Over every interleaving of retrievals, the table of locks is that of the descriptors that have
    been returned, so a descriptor that is held alone excludes the others. -/

namespace UprobeStats.MapLock
open RecordLock

/-- The lock of a descriptor that has been returned. -/
def Stage.lock? : Stage → Option (MapId × Kind)
  | .returned r map => r.type.map (map, ·)
  | _ => none

/-- `bpfLock` is given the type of the retrieval that calls it. -/
def Stage.Typed : Stage → Prop
  | .opened r _ type | .identified r _ type => r.type = some type
  | _ => True

/-- Two retrievals of one map whose descriptors may both be held. -/
def Retrieval.Compatible (r r' : Retrieval) : Prop :=
  r.type = none ∨ r'.type = none ∨ r.type = some .shared ∧ r'.type = some .shared

instance (r r' : Retrieval) : Decidable (r.Compatible r') := inferInstanceAs (Decidable (_ ∨ _ ∨ _))

theorem lockOf_key_inj {map map' : MapId} (h : map.val.toInt = map'.val.toInt) : map = map' :=
  Subtype.ext (Int32.toInt_inj.mp h)

/-- A retrieval asks for a lock that its own descriptor permits. -/
theorem permits_of_type {r : Retrieval} {type : Kind} (h : r.type = some type) : r.permits type := by
  cases r <;> simp only [Retrieval.type, reduceCtorEq, Option.some.injEq] at h <;> subst h <;> rfl

section Locks
variable {ι : Type} {s t : State ι} {i : ι}

/-- The locks in the table are those of the descriptors that have been returned. -/
structure Inv (s : State ι) : Prop where
  typed : ∀ i, (s.stage i).Typed
  held : ∀ i key kind, ⟨i, key, kind⟩ ∈ s.locks.locks ↔
    ∃ map : MapId, (s.stage i).lock? = some (map, kind) ∧ key = map.val.toInt

theorem Inv.init (pins : String → Option MapId) : Inv ({ pins } : State ι) :=
  ⟨fun _ => trivial, fun _ _ _ => ⟨fun h => (List.not_mem_nil h).elim, fun ⟨_, h, _⟩ => by cases h⟩⟩

theorem Inv.type_of_identified (h : Inv s) {r : Retrieval} {map : MapId} {type : Kind}
    (hi : s.stage i = .identified r map type) : r.type = some type := by
  have htyped := h.typed i
  rwa [hi] at htyped

theorem Inv.mem_locks (h : Inv s) {r : Retrieval} {map : MapId} {type : Kind} (hi : s.stage i = .returned r map)
    (htype : r.type = some type) : lockOf i map type ∈ s.locks.locks :=
  (h.held i _ _).mpr ⟨map, by rw [hi, Stage.lock?, htype]; rfl, rfl⟩

theorem Inv.compatible (h : Inv s) {j : ι} {r r' : Retrieval} {map : MapId} (hij : i ≠ j)
    (hi : s.stage i = .returned r map) (hj : s.stage j = .returned r' map) : r.Compatible r' := by
  unfold Retrieval.Compatible
  cases hr : r.type with
  | none => exact .inl rfl
  | some type =>
    cases hr' : r'.type with
    | none => exact .inr (.inl rfl)
    | some type' =>
      have hconflict := s.locks.compatible _ (h.mem_locks hi hr) _ (h.mem_locks hj hr')
      cases type <;> cases type' <;> simp_all [Lock.Conflicts, lockOf]

/-! ### Steps -/

variable [DecidableEq ι]

/-- What a step does to the calls and their locks, on a kernel that tells the ids of maps. -/
inductive Change (a : Action ι) (s t : State ι) : Prop where
  | stays (stage : t.stage = s.stage) (locks : t.locks = s.locks)
  | moves (i : ι) (stage : Stage) (before : (s.stage i).lock? = none) (after : stage.lock? = none)
      (typed : (s.stage i).Typed → stage.Typed) (goto : t.stage = Function.update s.stage i stage)
      (locks : t.locks = s.locks)
  | grants (i : ι) (r : Retrieval) (map : MapId) (type : Kind) (before : s.stage i = .identified r map type)
      (goto : t.stage = Function.update s.stage i (.returned r map))
      (set : s.locks.set (lockOf i map type) = some t.locks)
  | ends (i : ι) (act : a = .close i ∨ a = .exit i) (eq : t = s.ended i)

variable {a : Action ι}

theorem change_of_step (h : s.step true a = some t) : Change a s t := by
  cases a with
  | pin path map =>
    cases h
    exact .stays rfl rfl
  | bpfFdGet i r path fails =>
    simp only [State.step] at h
    split at h
    · rename_i hidle
      have hbefore : (s.stage i).lock? = none := by rw [hidle]; rfl
      split at h
      · cases h
        exact .stays rfl rfl
      · split at h
        · rename_i hr
          cases h
          exact .moves i (.returned r _) hbefore (by simp [Stage.lock?, hr]) (fun _ => trivial) rfl rfl
        · rename_i hr
          cases h
          exact .moves i (.opened r _ _) hbefore rfl (fun _ => hr) rfl rfl
    · cases h
  | bpfGetFdMapId i fails =>
    simp only [State.step, Bool.not_true, Bool.false_eq_true, ite_false] at h
    split at h
    · rename_i r map type hopened
      have hbefore : (s.stage i).lock? = none := by rw [hopened]; rfl
      split at h
      · cases h
        exact .moves i .aborted hbefore rfl (fun _ => trivial) rfl rfl
      · cases h
        exact .moves i (.identified r map type) hbefore rfl (fun htyped => by rwa [hopened] at htyped) rfl rfl
    · cases h
  | setLock i fails =>
    simp only [State.step] at h
    split at h
    · rename_i r map type hidentified
      split at h
      · cases h
        exact .moves i (.refused r map) (by rw [hidentified]; rfl) rfl (fun _ => trivial) rfl rfl
      · rename_i locks hset
        cases h
        split at hset
        · cases hset
        · exact .grants i r map type hidentified rfl hset
    · cases h
  | close i =>
    simp only [State.step] at h
    split at h
    · exact .ends i (.inl rfl) (Option.some.inj h).symm
    · exact .ends i (.inl rfl) (Option.some.inj h).symm
    · cases h
  | exit i => exact .ends i (.inr rfl) (Option.some.inj h).symm

theorem Inv.change (h : Inv s) (hc : Change a s t) : Inv t := by
  cases hc with
  | stays hstage hlocks =>
    exact ⟨fun i => hstage ▸ h.typed i, fun i key kind => by rw [hlocks, hstage]; exact h.held i key kind⟩
  | moves i stage hbefore hafter htyped hgoto hlocks =>
    constructor
    · intro j
      by_cases hj : j = i
      · subst hj
        simpa [hgoto] using htyped (h.typed j)
      · simpa [hgoto, hj] using h.typed j
    · intro j key kind
      rw [hlocks, h.held, hgoto]
      by_cases hj : j = i
      · subst hj
        simp [hbefore, hafter]
      · simp [hj]
  | grants i r map type hbefore hgoto hset =>
    have htype := h.type_of_identified hbefore
    constructor
    · intro j
      by_cases hj : j = i
      · subst hj
        simp [hgoto, Stage.Typed]
      · simpa [hgoto, hj] using h.typed j
    · intro j key kind
      rw [Table.mem_of_set hset, h.held, hgoto, lockOf]
      by_cases hj : j = i
      · -- The call had no lock before it was granted this one.
        subst hj
        simp only [hbefore, Stage.lock?, Function.update_self, htype]
        constructor
        · rintro (heq | ⟨⟨_, h, -⟩, -⟩)
          · cases heq
            exact ⟨map, rfl, rfl⟩
          · cases h
        · rintro ⟨map', heq, rfl⟩
          cases heq
          exact .inl rfl
      · simp [hj]
  | ends i hact heq =>
    subst heq
    constructor
    · intro j
      by_cases hj : j = i
      · subst hj
        simp [Stage.Typed]
      · simpa [hj] using h.typed j
    · intro j key kind
      by_cases hj : j = i
      · subst hj
        simp [Table.mem_release, Stage.lock?]
      · simp [Table.mem_release, hj, h.held]

/-- A descriptor with a lock stays until it is closed or its process ends. -/
theorem returned_of_step {r : Retrieval} {map : MapId} (hi : s.stage i = .returned r map) (hlock : r.type.isSome)
    (hact : ¬(a = .close i ∨ a = .exit i)) (h : s.step true a = some t) : t.stage i = .returned r map := by
  obtain ⟨kind, hkind⟩ := Option.isSome_iff_exists.mp hlock
  cases change_of_step h with
  | stays hstage hlocks => rw [hstage, hi]
  | moves j stage hbefore hafter htyped hgoto hlocks =>
    have hne : i ≠ j := by
      rintro rfl
      simp [hi, Stage.lock?, hkind] at hbefore
    rw [hgoto, Function.update_of_ne hne, hi]
  | grants j r' map' type hbefore hgoto hset =>
    have hne : i ≠ j := by
      rintro rfl
      simp [hi] at hbefore
    rw [hgoto, Function.update_of_ne hne, hi]
  | ends j hact' heq =>
    have hne : i ≠ j := by
      rintro rfl
      exact hact hact'
    rw [heq, State.ended_stage, Function.update_of_ne hne, hi]

theorem inv_of_reachable {pins : String → Option MapId} (h : Reachable true pins s) : Inv s :=
  Steps.Reachable.inv (.init pins) (fun _ _ _ hinv hstep => hinv.change (change_of_step hstep)) h

/-! ### Exclusion -/

/-- A lock is granted exactly if every other descriptor of the map that is held may be held together with it. -/
theorem Inv.step_setLock (h : Inv s) {r : Retrieval} {map : MapId} {type : Kind}
    (hi : s.stage i = .identified r map type) :
    ∃ t, s.step true (.setLock i false) = some t ∧
      ((∀ j r', j ≠ i → s.stage j = .returned r' map → r.Compatible r') ∧ t.stage i = .returned r map ∨
        (∃ j r', j ≠ i ∧ s.stage j = .returned r' map ∧ ¬r.Compatible r') ∧ t.stage i = .refused r map) := by
  have htype := h.type_of_identified hi
  simp only [State.step, hi, permits_of_type htype, Bool.not_true, Bool.or_false, Bool.false_eq_true, ite_false]
  cases hset : s.locks.set (lockOf i map type) with
  | none =>
    refine ⟨_, rfl, .inr ⟨?_, by simp⟩⟩
    obtain ⟨⟨j, key, kind⟩, hmem, hne, hkey, hkind⟩ := Table.set_eq_none.mp hset
    obtain ⟨map', hj, rfl⟩ := (h.held j key kind).mp hmem
    obtain rfl := lockOf_key_inj hkey
    cases hstage : s.stage j with
    | returned r' map =>
      rw [hstage, Stage.lock?, Option.map_eq_some_iff] at hj
      obtain ⟨_, hr', heq⟩ := hj
      cases heq
      refine ⟨j, r', hne, hstage, ?_⟩
      simp only [Retrieval.Compatible, htype, hr', reduceCtorEq, Option.some.injEq, false_or, not_and]
      rintro rfl rfl
      rcases hkind with hkind | hkind <;> cases hkind
    | _ => rw [hstage] at hj; cases hj
  | some locks =>
    refine ⟨_, rfl, .inl ⟨fun j r' hj hstage => ?_, by simp⟩⟩
    by_contra hnot
    have hcontra : s.locks.set (lockOf i map type) = none := by
      rw [Table.set_eq_none]
      cases hr' : r'.type with
      | none => exact absurd (.inr (.inl hr')) hnot
      | some type' =>
        refine ⟨_, h.mem_locks hstage hr', hj, rfl, ?_⟩
        cases type <;> cases type' <;> simp_all [Retrieval.Compatible, lockOf]
    rw [hset] at hcontra
    cases hcontra

end Locks

/-- Over every interleaving of retrievals, closes and ends of processes: two descriptors of one map that are held are
    compatible; `bpfLock` returns its descriptor exactly if it is compatible with the others of the map, whatever
    is held of other maps; else it closes it, and then nothing of the call is left. -/
theorem retrievals_exclude {ι : Type} [DecidableEq ι] {pins : String → Option MapId} {s : State ι}
    (h : Reachable true pins s) :
    (∀ i j r r' map, i ≠ j → s.stage i = .returned r map → s.stage j = .returned r' map → r.Compatible r') ∧
    (∀ i r map type, s.stage i = .identified r map type → ∃ t, s.step true (.setLock i false) = some t ∧
      ((∀ j r', j ≠ i → s.stage j = .returned r' map → r.Compatible r') ∧ t.stage i = .returned r map ∨
        (∃ j r', j ≠ i ∧ s.stage j = .returned r' map ∧ ¬r.Compatible r') ∧ t.stage i = .refused r map)) ∧
    ∀ i r map, s.stage i = .refused r map → ∃ t, s.step true (.close i) = some t ∧ t.stage i = .idle ∧
      t.locks.locks = s.locks.locks := by
  have hinv := inv_of_reachable h
  refine ⟨fun i j r r' map hij hi hj => hinv.compatible hij hi hj,
    fun i r map type hi => hinv.step_setLock hi, fun i r map hi => ?_⟩
  refine ⟨s.ended i, by rw [State.step, hi], by simp, ?_⟩
  refine List.filter_eq_self.mpr fun l hl => ?_
  obtain ⟨map', hstage, -⟩ := (hinv.held l.owner l.key l.kind).mp hl
  have hne : l.owner ≠ i := by
    intro heq
    rw [heq, hi] at hstage
    cases hstage
  simpa using hne

/-- One map, pinned under one path. -/
def onePin (path : String) : Option MapId := if path = "map" then some ⟨7, by decide⟩ else none

/-- The second call comes to its lock while the first one has its descriptor. -/
def twoRetrievals : List (Action Bool) :=
  [.bpfFdGet true .mapRetrieveExclusiveRW "map" false, .bpfGetFdMapId true false, .setLock true false,
    .bpfFdGet false .mapRetrieveRW "map" false, .bpfGetFdMapId false false]

theorem retrievals_exclude_second : ∃ s t : State Bool,
    Steps.run (State.step true) { pins := onePin } twoRetrievals = some s ∧
      s.step true (.setLock false false) = some t ∧ t.stage false = .refused .mapRetrieveRW ⟨7, by decide⟩ := by
  have hrun : (Steps.run (State.step true) { pins := onePin } twoRetrievals).map (fun s => (s.stage true, s.stage false)) =
      some (.returned .mapRetrieveExclusiveRW ⟨7, by decide⟩, .identified .mapRetrieveRW ⟨7, by decide⟩ .shared) := by
    decide
  obtain ⟨s, hs, hstages⟩ := Option.map_eq_some_iff.mp hrun
  obtain ⟨htrue, hfalse⟩ := Prod.mk.inj hstages
  obtain ⟨-, hlock, -⟩ := retrievals_exclude (Steps.Reachable.init.of_run hs)
  obtain ⟨t, ht, hgranted | hrefused⟩ := hlock false _ _ _ hfalse
  · exact absurd (hgranted.1 true _ (by simp) htrue) (by decide)
  · exact ⟨s, t, hs, ht, hrefused.2⟩

end UprobeStats.MapLock
