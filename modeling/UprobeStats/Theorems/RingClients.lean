import UprobeStats.RingClients
import UprobeStats.Theorems.MapLock
import UprobeStats.Theorems.RingFifo

/-! Any number of calls over one pinned ring. The lock of its map lets one of them read at a time, so together they
    are the one reader of the ring; a process that ends inside of a callback leaves its record to the next reader. -/

namespace UprobeStats.BpfRingbuf
open Fifo
open MapLock (MapId)

/-! ### History -/

section History
variable {g : Geometry} {r t : Ring} {a : Action}

/-- No producer looks at the reader, or hands anything out. -/
theorem step_produces (ha : a.produces) (h : r.step g a = some t) :
    t.events = r.events ∧ t.reader = r.reader ∧
      ∀ reader events, Ring.step g { r with reader, events } a = some { t with reader, events } := by
  cases a with
  | reserve len pgOff =>
    obtain rfl := Option.some.inj h
    simp only [Ring.step, Ring.reserve]
    split <;> exact ⟨rfl, rfl, fun _ _ => rfl⟩
  | write i bytes =>
    obtain ⟨x, hx, h⟩ := Option.bind_eq_some_iff.mp h
    split at h
    · rename_i hlen
      obtain rfl := Option.some.inj h
      exact ⟨rfl, rfl, fun _ _ => Option.bind_eq_some_iff.mpr ⟨x, hx, if_pos hlen⟩⟩
    · cases h
  | commit i =>
    obtain ⟨x, hx, h⟩ := Option.bind_eq_some_iff.mp h
    obtain rfl := Option.some.inj h
    exact ⟨rfl, rfl, fun _ _ => Option.bind_eq_some_iff.mpr ⟨x, hx, rfl⟩⟩
  | discard i =>
    obtain ⟨x, hx, h⟩ := Option.bind_eq_some_iff.mp h
    obtain rfl := Option.some.inj h
    exact ⟨rfl, rfl, fun _ _ => Option.bind_eq_some_iff.mpr ⟨x, hx, rfl⟩⟩
  | create | consumeAll | tick | destroy => cases ha

theorem tick_events (h : r.tick g = some t) :
    ∃ new, t.events = r.events ++ new ∧
      ∀ events, Ring.tick g { r with events } = some { t with events := events ++ new } := by
  unfold Ring.tick at h ⊢
  cases hreader : r.reader with
  | closed => simp only [hreader, reduceCtorEq] at h
  | opened => simp only [hreader, reduceCtorEq] at h
  | sampled prodPos seen =>
    simp only [hreader, Option.some.injEq] at h ⊢
    subst h
    exact ⟨[], by simp⟩
  | consuming prodPos consPos count seen =>
    simp only [hreader] at h ⊢
    split at h
    · rename_i hne
      split at h
      · rename_i hbusy
        cases h
        exact ⟨[.returned count seen], rfl, fun _ => (if_pos hne).trans (if_pos hbusy)⟩
      · rename_i hbusy
        cases h
        exact ⟨[], (List.append_nil _).symm, fun _ => by rw [List.append_nil]; exact (if_pos hne).trans (if_neg hbusy)⟩
    · rename_i heq
      cases h
      exact ⟨[.returned count seen], rfl, fun _ => if_neg heq⟩
  | committed prodPos consPos length count seen =>
    simp only [hreader] at h ⊢
    split at h
    · rename_i hkept
      split at h
      · rename_i hsize
        cases h
        exact ⟨[.sizeError length], rfl, fun _ => (if_pos hkept).trans (if_pos hsize)⟩
      · rename_i hsize
        cases h
        exact ⟨[.delivered _], rfl, fun _ => (if_pos hkept).trans (if_neg hsize)⟩
    · rename_i hdiscarded
      cases h
      exact ⟨[], (List.append_nil _).symm, fun _ => by rw [List.append_nil]; exact if_neg hdiscarded⟩
  | called prodPos consPos count seen =>
    simp only [hreader, Option.some.injEq] at h ⊢
    subst h
    exact ⟨[], by simp⟩

/-- No step looks at what has been handed out before. -/
theorem step_events (h : r.step g a = some t) :
    ∃ new, t.events = r.events ++ new ∧
      ∀ events, Ring.step g { r with events } a = some { t with events := events ++ new } := by
  cases a with
  | reserve | write | commit | discard =>
    obtain ⟨hevents, hreader, hstep⟩ := step_produces rfl h
    refine ⟨[], by simpa using hevents, fun events => ?_⟩
    simpa [← hreader] using hstep t.reader events
  | create =>
    simp only [Ring.step] at h ⊢
    split at h
    · rename_i hreader
      cases h
      exact ⟨[], by simp [hreader]⟩
    · cases h
  | consumeAll =>
    simp only [Ring.step] at h ⊢
    split at h
    · rename_i hreader
      cases h
      exact ⟨[], by simp [hreader]⟩
    · cases h
  | tick => exact tick_events h
  | destroy =>
    simp only [Ring.step] at h ⊢
    split at h
    · rename_i hreader
      cases h
      exact ⟨[], by simp [hreader]⟩
    · cases h

end History

/-! ### The end of a process -/

/-- The callback has run, and the position behind its record is not stored yet. -/
def Reader.calling : Reader → Bool
  | .called .. => true
  | .closed | .opened | .sampled .. | .consuming .. | .committed .. => false

theorem tick_calling {g : Geometry} {r t : Ring} (h : r.tick g = some t) (ht : t.reader.calling) :
    ∃ value, t.events = r.events ++ [.delivered value] := by
  unfold Ring.tick at h
  cases hreader : r.reader with
  | closed | opened => simp only [hreader, reduceCtorEq] at h
  | sampled | called =>
    simp only [hreader, Option.some.injEq] at h
    subst h
    cases ht
  | consuming =>
    simp only [hreader] at h
    split at h
    · split at h <;> cases h <;> cases ht
    · cases h
      cases ht
  | committed =>
    simp only [hreader] at h
    split at h
    · split at h
      · cases h
        cases ht
      · cases h
        exact ⟨_, rfl⟩
    · cases h
      cases ht

/-- Only a step that hands out a value comes to the callback. -/
theorem calling_of_step {g : Geometry} {r t : Ring} {a : Action} (h : r.step g a = some t) (ht : t.reader.calling)
    (hquiet : t.events.filter Event.handed = r.events.filter Event.handed) : r.reader.calling := by
  cases a with
  | reserve | write | commit | discard => exact (step_produces rfl h).2.1 ▸ ht
  | create | consumeAll | destroy =>
    simp only [Ring.step] at h
    split at h <;> cases h
    cases ht
  | tick =>
    obtain ⟨value, hevents⟩ := tick_calling h ht
    rw [hevents, List.filter_append, List.append_right_eq_self] at hquiet
    cases hquiet

/-- What all readers have handed out: the reports of the samples passed, and `due` behind them, which a process has
    handed out that ended before it recorded it. The next reader hands it out again; there are `copies` of events
    handed out so. -/
structure Handed (g : Geometry) (q : Queue Sample) (reader : Reader) (events : List Event) (kills : Nat)
    (due : Option Event) (copies : Nat) : Prop where
  next : ∀ e ∈ due, ∃ x, q.slots[q.head]? = some x ∧ x.status ≠ .busy ∧ report g x = some e
  calling : reader.calling → due = none
  repeats : Repeats (q.passed.filterMap (report g) ++ due.toList) (events.filter Event.handed) copies
  le : copies + due.toList.length ≤ kills

theorem handed_of_report {g : Geometry} {x : Slot Sample} {e : Event} (h : report g x = some e) : e.handed := by
  unfold report at h
  split at h
  · split at h <;> cases h <;> rfl
  · cases h
  · cases h

theorem filter_handed_reports {g : Geometry} (xs : List (Slot Sample)) :
    (xs.filterMap (report g)).filter Event.handed = xs.filterMap (report g) := by
  refine List.filter_eq_self.mpr fun e he => ?_
  obtain ⟨x, -, hx⟩ := List.mem_filterMap.mp he
  exact handed_of_report hx

section Handed
variable {g : Geometry} {p : UInt64} {r t : Ring} {q : Queue Sample} {events new : List Event} {kills copies : Nat}
  {due : Option Event}

/-- A reader that passes a sample hands its event out the first time, or again. -/
theorem Handed.pass (h : Handed g q r.reader events kills due copies) {x : Slot Sample} {q' : Queue Sample}
    (hx : q.slots[q.head]? = some x) (hpassed : q'.passed = q.passed ++ [x])
    (hnew : new.filter Event.handed = (report g x).toList) (reader : Reader) :
    ∃ copies', Handed g q' reader (events ++ new) kills none copies' := by
  have hdue : ∀ e ∈ due, report g x = some e := by
    intro e he
    obtain ⟨y, hy, -, hreport⟩ := h.next e he
    rw [hx] at hy
    cases hy
    exact hreport
  have hreports : q'.passed.filterMap (report g) = q.passed.filterMap (report g) ++ (report g x).toList := by
    rw [hpassed, filterMap_report_concat]
  have hrepeats := h.repeats
  have hle := h.le
  cases due with
  | none =>
    refine ⟨copies, nofun, fun _ => rfl, ?_, hle⟩
    rw [Option.toList_none, List.append_nil] at hrepeats ⊢
    rw [hreports, List.filter_append, hnew]
    cases report g x with
    | none => simpa using hrepeats
    | some e => exact hrepeats.next e
  | some e =>
    have hreport := hdue e rfl
    refine ⟨copies + 1, nofun, fun _ => rfl, ?_, hle⟩
    rw [Option.toList_none, List.append_nil, hreports, List.filter_append, hnew, hreport]
    exact hrepeats.again

theorem Handed.step (h : Handed g q r.reader events kills due copies) (hshows : Shows g p r q) {a : Action}
    (hs : r.step g a = some t) (hnew : t.events = r.events ++ new) :
    ∃ q' due' copies', Shows g p t q' ∧ Handed g q' t.reader (events ++ new) kills due' copies' := by
  obtain ⟨q', hmoved, hshows'⟩ := step_sim hshows hs
  obtain ⟨m, -, -, -, ho, hevents⟩ := hshows
  have hevents' : q'.passed.filterMap (report g) = q.passed.filterMap (report g) ++ new.filter Event.handed := by
    obtain ⟨-, -, -, -, -, hevents'⟩ := id hshows'
    rw [← hevents', hnew, List.filter_append, hevents]
  -- A step that passes no sample hands nothing out.
  have hstill (hpassed : q'.passed = q.passed) (hhead : q'.head = q.head)
      (hslots : ∀ x, q.slots[q.head]? = some x → x.status ≠ .busy → q'.slots[q.head]? = some x) :
      ∃ q' due' copies', Shows g p t q' ∧ Handed g q' t.reader (events ++ new) kills due' copies' := by
    have hquiet : new.filter Event.handed = [] := by simpa [hpassed] using hevents'
    refine ⟨q', due, copies, hshows', fun e he => ?_, fun hcalling => ?_, ?_, h.le⟩
    · obtain ⟨x, hx, hb, hreport⟩ := h.next e he
      exact ⟨x, hhead ▸ hslots x hx hb, hb, hreport⟩
    · exact h.calling (calling_of_step hs hcalling (by rw [hnew, List.filter_append, hquiet, List.append_nil]))
    · rw [hpassed, List.filter_append, hquiet, List.append_nil]
      exact h.repeats
  rcases hmoved with rfl | ⟨b, hb⟩
  · exact hstill rfl rfl fun _ hx _ => hx
  · rcases Queue.step_passed ho hb with ⟨x, -, hx, -, hpassed⟩ | ⟨-, hpassed, hhead⟩
    · have hreport : new.filter Event.handed = (report g x).toList := by
        rw [hpassed, filterMap_report_concat] at hevents'
        exact (List.append_cancel_left hevents').symm
      obtain ⟨copies', hhanded⟩ := h.pass hx hpassed hreport t.reader
      exact ⟨q', none, copies', hshows', hhanded⟩
    · exact hstill hpassed hhead fun _ => Queue.step_settled hb

/-- A reader that goes away leaves the ring at the position that it has stored. -/
theorem Handed.kill (h : Handed g q r.reader events kills due copies) (hshows : Shows g p r q) :
    ∃ q' kept due', Shows g p { r with reader := .closed, events := kept } q' ∧
      Handed g q' .closed events (if r.reader.running then kills + 1 else kills) due' copies := by
  obtain ⟨m, ht, hf, hslots, ho, hevents⟩ := hshows
  have htiles {events : List Event} : Tiles g p { r with reader := .closed, events } m :=
    ⟨ht.1, ht.2, ht.3, ht.4, ht.5, ht.6⟩
  have hle : kills ≤ if r.reader.running then kills + 1 else kills := by split <;> omega
  have hstored (hhead : q.head = m) : ∃ q' kept due', Shows g p { r with reader := .closed, events := kept } q' ∧
      Handed g q' .closed events (if r.reader.running then kills + 1 else kills) due' copies :=
    ⟨q, r.events, due, ⟨m, htiles, hhead, hslots, ho, hevents⟩, h.next, nofun, h.repeats, h.le.trans hle⟩
  cases hreader : r.reader with
  | closed | opened => simp only [Follows, hreader] at hf; exact hreader ▸ hstored hf
  | sampled prodPos seen | consuming prodPos consPos count seen | committed prodPos consPos length count seen =>
    simp only [Follows, hreader] at hf
    exact hreader ▸ hstored hf.1
  | called prodPos consPos count seen =>
    -- The position stored is that of the record handed out last, so it is due again.
    simp only [Follows, hreader] at hf
    obtain ⟨hhead, -, -, x, hx, hb⟩ := hf
    have hpassed : q.passed = q.slots.take m ++ [x] := by
      rw [Queue.passed, hhead, hslots, List.take_add_one, hx, Option.toList_some]
    have horder : Queue.Ordered ⟨q.slots, m⟩ := hslots ▸ ht.ordered
    have hnone : due = none := h.calling (by rw [hreader]; rfl)
    have hreports : q.passed.filterMap (report g) =
        (q.slots.take m).filterMap (report g) ++ (report g x).toList := by
      rw [hpassed, filterMap_report_concat]
    refine ⟨⟨q.slots, m⟩, (q.slots.take m).filterMap (report g), report g x,
      ⟨m, htiles, rfl, hslots, horder, filter_handed_reports _⟩, fun e he => ⟨x, hslots ▸ hx, hb, he⟩, nofun, ?_, ?_⟩
    · have hrepeats := h.repeats
      rw [hnone, Option.toList_none, List.append_nil, hreports] at hrepeats
      exact hrepeats
    · have hle := h.le
      rw [hnone, Option.toList_none, List.length_nil, Nat.add_zero] at hle
      have hone : (report g x).toList.length ≤ 1 := by cases report g x <;> simp
      rw [Reader.running, if_pos rfl]
      omega

end Handed

/-! ### The invariant -/

section Clients
variable {ι : Type} {g : Geometry} {p : UInt64} {ringMap : MapId} {s t : Clients ι}

/-- The reader that is at work: the only one that is not closed, if there is one. -/
structure Current (readers : ι → Reader) (reader : Reader) : Prop where
  all : ∀ i, readers i = .closed ∨ readers i = reader
  some_or : reader = .closed ∨ ∃ i, readers i = reader

theorem Current.eq_of {readers : ι → Reader} {reader : Reader} {i : ι} (h : Current readers reader)
    (hothers : ∀ j, j ≠ i → readers j = .closed) : reader = readers i := by
  rcases h.some_or with rfl | ⟨j, rfl⟩
  · rcases h.all i with hi | hi <;> rw [hi]
  · by_cases hj : j = i
    · rw [hj]
    · rw [hothers j hj]
      rcases h.all i with hi | hi
      · rw [hi]
      · rw [hi, hothers j hj]

theorem Current.update [DecidableEq ι] {readers : ι → Reader} {i : ι} (hothers : ∀ j, j ≠ i → readers j = .closed)
    (reader : Reader) : Current (Function.update readers i reader) reader where
  all j := by
    by_cases hj : j = i
    · subst hj
      exact .inr (Function.update_self ..)
    · exact .inl (by rw [Function.update_of_ne hj, hothers j hj])
  some_or := .inr ⟨i, Function.update_self ..⟩

/-- A reader that is not closed has the ring's map; with it, the ring shows the queue of its samples. -/
structure ClientsInv (g : Geometry) (p : UInt64) (ringMap : MapId) (s : Clients ι) : Prop where
  calls : MapLock.Inv s.calls
  holds : ∀ i, s.readers i ≠ .closed → s.calls.stage i = .returned .mapRetrieveExclusiveRW ringMap
  shows : ∃ reader kept q due copies, Current s.readers reader ∧ Shows g p { s.ring with reader, events := kept } q ∧
    Handed g q reader s.ring.events s.kills due copies

theorem ClientsInv.init (pins : String → Option MapId) (data : Nat → UInt8) :
    ClientsInv g p ringMap (Clients.init pins p data : Clients ι) where
  calls := .init pins
  holds _ h := absurd rfl h
  shows := ⟨.closed, [], {}, none, 0, ⟨fun _ => .inl rfl, .inl rfl⟩, .empty data, nofun, nofun, .nil, Nat.le_refl _⟩

/-- The map is held by one call at a time. -/
theorem ClientsInv.sole (h : ClientsInv g p ringMap s) {i j : ι}
    (hi : s.calls.stage i = .returned .mapRetrieveExclusiveRW ringMap) (hj : j ≠ i) : s.readers j = .closed := by
  by_contra hopen
  have hcompatible := h.calls.compatible hj (h.holds j hopen) hi
  exact absurd hcompatible (by decide)

theorem ClientsInv.producer (h : ClientsInv g p ringMap s) {a : Action} {ring : Ring} (ha : a.produces)
    (hs : s.ring.step g a = some ring) : ClientsInv g p ringMap { s with ring } := by
  obtain ⟨reader, kept, q, due, copies, hcurrent, hshows, hhanded⟩ := h.shows
  obtain ⟨hevents, -, hstep⟩ := step_produces ha hs
  obtain ⟨q', due', copies', hshows', hhanded'⟩ := hhanded.step hshows (hstep reader kept) (List.append_nil _).symm
  rw [List.append_nil] at hhanded'
  exact ⟨h.calls, h.holds, reader, kept, q', due', copies', hcurrent, hshows', hevents ▸ hhanded'⟩

variable [DecidableEq ι]

theorem ClientsInv.reads (h : ClientsInv g p ringMap s) {i : ι} {a : Action} {ring : Ring}
    (hi : s.calls.stage i = .returned .mapRetrieveExclusiveRW ringMap) (hs : (s.seen i).step g a = some ring) :
    ClientsInv g p ringMap (s.left i ring) := by
  have hothers : ∀ j, j ≠ i → s.readers j = .closed := fun j hj => h.sole hi hj
  obtain ⟨reader, kept, q, due, copies, hcurrent, hshows, hhanded⟩ := h.shows
  obtain rfl := hcurrent.eq_of hothers
  obtain ⟨new, hnew, hstep⟩ := step_events hs
  obtain ⟨q', due', copies', hshows', hhanded'⟩ := hhanded.step hshows (hstep kept) rfl
  refine ⟨h.calls, fun j hj => ?_, ring.reader, kept ++ new, q', due', copies', .update hothers _, hshows', ?_⟩
  · by_cases hji : j = i
    · rw [hji]
      exact hi
    · have hclosed : (s.left i ring).readers j = .closed := (Function.update_of_ne hji ..).trans (hothers j hji)
      exact absurd hclosed hj
  · have hevents : ring.events = s.ring.events ++ new := hnew
    rw [Clients.left, hevents]
    exact hhanded'

theorem ClientsInv.read (h : ClientsInv g p ringMap s) {i : ι} {a : Action} (hs : s.read g ringMap i a = some t) :
    ClientsInv g p ringMap t := by
  have hopen {a : Action} (hs : ((s.seen i).step g a).map (s.left i) = some t) (hreader : s.readers i ≠ .closed) :
      ClientsInv g p ringMap t := by
    obtain ⟨ring, hring, rfl⟩ := Option.map_eq_some_iff.mp hs
    exact h.reads (h.holds i hreader) hring
  cases a with
  | create =>
    simp only [Clients.read] at hs
    split at hs
    · rename_i hi
      obtain ⟨ring, hring, rfl⟩ := Option.map_eq_some_iff.mp hs
      exact h.reads hi hring
    · cases hs
  | consumeAll =>
    refine hopen hs fun hreader => ?_
    simp [Clients.read, Clients.seen, Ring.step, hreader] at hs
  | tick =>
    refine hopen hs fun hreader => ?_
    simp [Clients.read, Clients.seen, Ring.step, Ring.tick, hreader] at hs
  | destroy =>
    refine hopen hs fun hreader => ?_
    simp [Clients.read, Clients.seen, Ring.step, hreader] at hs
  | reserve | write | commit | discard => cases hs

theorem ClientsInv.exit (h : ClientsInv g p ringMap s) (i : ι) :
    ClientsInv g p ringMap { s with
      calls := s.calls.ended i
      readers := Function.update s.readers i .closed
      kills := if (s.readers i).running then s.kills + 1 else s.kills } := by
  obtain ⟨reader, kept, q, due, copies, hcurrent, hshows, hhanded⟩ := h.shows
  refine ⟨h.calls.change (.ends i (.inr rfl) rfl), fun j hj => ?_, ?_⟩
  · by_cases hji : j = i
    · rw [hji] at hj
      exact absurd (Function.update_self ..) hj
    · have hopen : s.readers j ≠ .closed := by rwa [← Function.update_of_ne hji .closed s.readers]
      exact (Function.update_of_ne hji ..).trans (h.holds j hopen)
  · by_cases hi : s.readers i = .closed
    · rw [← hi, Function.update_eq_self]
      exact ⟨reader, kept, q, due, copies, hcurrent, hshows, by simpa [hi, Reader.running] using hhanded⟩
    · have hothers : ∀ j, j ≠ i → s.readers j = .closed := fun j hj => h.sole (h.holds i hi) hj
      obtain rfl := hcurrent.eq_of hothers
      obtain ⟨q', kept', due', hshows', hhanded'⟩ := hhanded.kill hshows
      exact ⟨.closed, kept', q', due', copies, .update hothers _, hshows', hhanded'⟩

theorem ClientsInv.step (h : ClientsInv g p ringMap s) {a : ClientAction ι} (hs : s.step g ringMap a = some t) :
    ClientsInv g p ringMap t := by
  cases a with
  | call a =>
    obtain ⟨calls, hcalls, hs⟩ := Option.bind_eq_some_iff.mp hs
    have hinv := h.calls.change (MapLock.change_of_step hcalls)
    have hquiet (ha : ∀ i, s.readers i ≠ .closed → ¬(a = .close i ∨ a = .exit i)) :
        ClientsInv g p ringMap { s with calls } :=
      ⟨hinv, fun i hi => MapLock.returned_of_step (h.holds i hi) rfl (ha i hi) hcalls, h.shows⟩
    cases a with
    | close i =>
      simp only at hs
      split at hs
      · rename_i hclosed
        cases hs
        refine hquiet fun j hj => ?_
        rintro (heq | heq)
        · cases heq
          exact hj hclosed
        · cases heq
      · cases hs
    | exit i =>
      cases hs
      cases hcalls
      exact h.exit i
    | pin | bpfFdGet | bpfGetFdMapId | setLock =>
      cases hs
      exact hquiet fun i _ => by simp
  | producer a =>
    simp only [Clients.step] at hs
    split at hs
    · rename_i ha
      obtain ⟨ring, hring, rfl⟩ := Option.map_eq_some_iff.mp hs
      exact h.producer ha hring
    · cases hs
  | reader i a => exact h.read hs

end Clients

end UprobeStats.BpfRingbuf
