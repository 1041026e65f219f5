import UprobeStats.Theorems.RingInv

/-! `ConsumeAll` refines a FIFO queue. Each step of the ring is a step of the queue of its samples, or
    leaves the queue as it is; the reader passes a sample when it calls back, skips it or reports its
    size, and what it hands out is a function of the samples it has passed. -/

namespace UprobeStats.BpfRingbuf
open Circular Fifo

/-- What `ConsumeAll` hands out for a sample that it passes: nothing for a discarded one. -/
def report (g : Geometry) (x : Slot Sample) : Option Event :=
  match x.status with
  | .committed =>
    if x.value.len.toUInt64 = g.valueSize then some (.delivered x.value.bytes) else some (.sizeError x.value.len)
  | .busy | .discarded => none

theorem filterMap_report_concat {g : Geometry} (xs : List (Slot Sample)) (x : Slot Sample) :
    (xs ++ [x]).filterMap (report g) = xs.filterMap (report g) ++ (report g x).toList := by
  rw [List.filterMap_append]
  cases hreport : report g x <;> simp [hreport]

def Event.handed : Event → Bool
  | .returned _ _ => false
  | _ => true

/-! ### The reader -/

/-- The reader read the producer position when `seen` samples were reserved, and `n` of them are behind it. -/
structure Saw (p : UInt64) (r : Ring) (prodPos : UInt32) (n seen : Nat) : Prop where
  le : n ≤ seen
  seen_le : seen ≤ r.samples.length
  prodPos_eq : prodPos = (posAt p (layout.extent (r.samples.take seen))).toUInt32

/-- The reader has passed `n` samples, `m` of them in its stored position. -/
def Follows (p : UInt64) (r : Ring) (m n : Nat) : Prop :=
  match r.reader with
  | .closed | .opened => n = m
  | .sampled prodPos seen => n = m ∧ Saw p r prodPos n seen
  | .consuming prodPos consPos _ seen => n = m ∧ consPos = r.consumerPos ∧ Saw p r prodPos n seen
  | .committed prodPos consPos length _ seen =>
    n = m ∧ consPos = r.consumerPos ∧ Saw p r prodPos (n + 1) seen ∧
      ∃ x, r.samples[n]? = some x ∧ x.status ≠ .busy ∧ length = headerOf x.value.len x.status
  | .called prodPos consPos _ seen =>
    n = m + 1 ∧ consPos = posAt p (layout.extent (r.samples.take n)) ∧ Saw p r prodPos n seen ∧
      ∃ x, r.samples[m]? = some x ∧ x.status ≠ .busy

theorem Saw.of_extends {p : UInt64} {r t : Ring} {prodPos : UInt32} {n seen : Nat} (h : Saw p r prodPos n seen)
    (he : Extends r.samples t.samples) : Saw p t prodPos n seen where
  le := h.le
  seen_le := le_trans h.seen_le he.length_le
  prodPos_eq := by rw [he.extent seen h.seen_le, h.prodPos_eq]

theorem Follows.of_extends {p : UInt64} {r t : Ring} {m n : Nat} (h : Follows p r m n)
    (he : Extends r.samples t.samples) (hr : t.reader = r.reader) (hc : t.consumerPos = r.consumerPos) :
    Follows p t m n := by
  unfold Follows at h ⊢
  rw [hr]
  cases hreader : r.reader with
  | closed => simpa only [hreader] using h
  | opened => simpa only [hreader] using h
  | sampled prodPos seen =>
    simp only [hreader] at h ⊢
    exact ⟨h.1, h.2.of_extends he⟩
  | consuming prodPos consPos count seen =>
    simp only [hreader] at h ⊢
    exact ⟨h.1, hc ▸ h.2.1, h.2.2.of_extends he⟩
  | committed prodPos consPos length count seen =>
    simp only [hreader] at h ⊢
    obtain ⟨hn, hcons, hsaw, x, hx, hb, hlen⟩ := h
    exact ⟨hn, hc ▸ hcons, hsaw.of_extends he, x, he.settled _ _ hx hb, hb, hlen⟩
  | called prodPos consPos count seen =>
    simp only [hreader] at h ⊢
    obtain ⟨hn, hcons, hsaw, x, hx, hb⟩ := h
    refine ⟨hn, ?_, hsaw.of_extends he, x, he.settled _ _ hx hb, hb⟩
    rw [he.extent n (le_trans hsaw.le hsaw.seen_le), hcons]

/-- The low halves of two positions less than a ring apart tell them apart. -/
theorem low_eq_iff {p : UInt64} {a b : Nat} (hab : a ≤ b) (hlt : b - a < 2 ^ 28) :
    posAt p a &&& 0xFFFFFFFF = (posAt p b).toUInt32.toUInt64 ↔ a = b := by
  have hmask : (posAt p a &&& 0xFFFFFFFF).toNat = (posAt p a).toNat % 2 ^ 32 := by
    rw [UInt64.toNat_and, show (0xFFFFFFFF : UInt64).toNat = 2 ^ 32 - 1 by decide, Nat.and_two_pow_sub_one_eq_mod]
  rw [← UInt64.toNat_inj, hmask, UInt32.toNat_toUInt64, UInt64.toNat_toUInt32, toNat_posAt, toNat_posAt]
  omega

namespace Tiles
variable {g : Geometry} {p : UInt64} {r : Ring} {m n seen : Nat} {x : Slot Sample}

/-- The loop goes on exactly while samples that it saw reserved are left. -/
theorem reached_iff (h : Tiles g p r m) {prodPos : UInt32} (hs : Saw p r prodPos m seen) :
    r.consumerPos &&& 0xFFFFFFFF = prodPos.toUInt64 ↔ m = seen := by
  have hsum := layout.extent_take_add_drop r.samples m
  have hroom := h.room
  have hmax := g.maxEntries_le
  have hbase := extent_take_drop r.samples hs.le
  have hseen := layout.extent_take_add_drop r.samples seen
  rw [h.consumer, hs.prodPos_eq, low_eq_iff (by omega) (by omega)]
  constructor
  · intro heq
    by_contra hne
    have hlt : m < seen := lt_of_le_of_ne hs.le hne
    have hi : m < r.samples.length := lt_of_lt_of_le hlt hs.seen_le
    have hx : r.samples[m]? = some r.samples[m] := List.getElem?_eq_getElem hi
    have hsucc := extent_take_succ hx
    have hmono := extent_take_drop r.samples (m := m + 1) hlt
    have := eight_le_rounded r.samples[m].value.len
    omega
  · rintro rfl
    rfl

theorem load_header (h : Tiles g p r m) (hx : r.samples[m]? = some x) :
    UInt32.ofNat (Bytes.ofLe (cells (r.mapped g) (r.consumerPos &&& g.posMask).toNat 4)) =
      headerOf x.value.len x.status := by
  have hpos := h.pos m x hx
  rw [← h.consumer] at hpos
  have hcells := cells_mapped (g := g) (r := r) r.consumerPos (o := 0) (k := 4)
  rw [Nat.add_zero] at hcells
  rw [hcells, ← hpos]
  exact (h.holds (Nat.le_refl m) hx).1

theorem load_value (h : Tiles g p r m) (hx : r.samples[m]? = some x) :
    cells (r.mapped g) ((r.consumerPos &&& g.posMask).toNat + hdrSz.toNat) x.value.len.toNat = x.value.bytes := by
  have hpos := h.pos m x hx
  rw [← h.consumer] at hpos
  rw [cells_mapped, ← hpos]
  exact (h.holds (Nat.le_refl m) hx).2

theorem consumerPos_add (h : Tiles g p r m) (hx : r.samples[m]? = some x) :
    r.consumerPos + (roundLength (headerOf x.value.len x.status)).toUInt64 =
      posAt p (layout.extent (r.samples.take (m + 1))) := by
  have hround : (roundLength (headerOf x.value.len x.status)).toUInt64 = UInt64.ofNat (rounded x.value.len) := by
    apply UInt64.toNat_inj.mp
    have hlt := h.len_lt (Nat.le_refl m) hx
    rw [UInt32.toNat_toUInt64, toNat_roundLength hlt, UInt64.toNat_ofNat', Nat.mod_eq_of_lt]
    unfold rounded
    omega
  rw [hround, h.consumer, extent_take_succ hx, ← posAt_posAt]
  rfl

theorem advance (h : Tiles g p r m) (hx : r.samples[m]? = some x) (hb : x.status ≠ .busy) {t : Ring}
    (hd : t.data = r.data) (hp : t.producerPos = r.producerPos) (hsamples : t.samples = r.samples)
    (hc : t.consumerPos = posAt p (layout.extent (r.samples.take (m + 1)))) : Tiles g p t (m + 1) where
  ordered := by
    have hpass : Queue.step ⟨r.samples, m⟩ .pass = some ⟨r.samples, m + 1⟩ := by simp [Queue.step, hx, hb]
    rw [hsamples]
    exact h.ordered.step hpass
  consumer := by rw [hc, hsamples]
  producer := by rw [hp, h.producer, hsamples]
  room := by
    have hroom := h.room
    have hsplit := layout.extent_take_add_drop r.samples (m + 1)
    have hbase := layout.extent_take_add_drop r.samples m
    have hsucc := extent_take_succ hx
    rw [hsamples]
    omega
  pos := by
    rw [hsamples]
    exact h.pos
  tiled := by
    have ht := h.tiled
    rw [drop_eq_append (Nat.le_refl m) hx, List.drop_take_self, List.nil_append] at ht
    have hrest := ht.2
    rw [span_eq, ← window_add, Nat.add_assoc, ← extent_take_succ hx] at hrest
    rw [hsamples, hd]
    exact hrest

end Tiles

/-! ### One access -/

/-- What one access of a call does, with `n` samples passed, `m` of them in the stored position: the call
    starts, returns, finds a settled sample, skips it, refuses its size or delivers it, and moves on after that. -/
inductive Access (g : Geometry) (p : UInt64) (r : Ring) (m n : Nat) : Ring → Prop
  | starts {prodPos : UInt32} {seen : Nat} (hreader : r.reader = .sampled prodPos seen) (hn : n = m)
      (hsaw : Saw p r prodPos n seen) :
      Access g p r m n { r with reader := .consuming prodPos r.consumerPos 0 seen }
  | returns {prodPos : UInt32} {count seen : Nat} (hreader : r.reader = .consuming prodPos r.consumerPos count seen)
      (hn : n = m) (hend : n = seen ∨ ∃ x, r.samples[n]? = some x ∧ x.status = .busy) :
      Access g p r m n { r with reader := .opened, events := r.events ++ [.returned count seen] }
  | finds {prodPos : UInt32} {count seen : Nat} {x : Slot Sample}
      (hreader : r.reader = .consuming prodPos r.consumerPos count seen) (hn : n = m) (hsaw : Saw p r prodPos (n + 1) seen)
      (hx : r.samples[n]? = some x) (hb : x.status ≠ .busy) :
      Access g p r m n
        { r with reader := .committed prodPos r.consumerPos (headerOf x.value.len x.status) count seen }
  | skips {prodPos length : UInt32} {count seen : Nat} {x : Slot Sample}
      (hreader : r.reader = .committed prodPos r.consumerPos length count seen) (hn : n = m)
      (hsaw : Saw p r prodPos (n + 1) seen) (hx : r.samples[n]? = some x) (hst : x.status = .discarded) :
      Access g p r m n
        { r with
          consumerPos := posAt p (layout.extent (r.samples.take (n + 1)))
          reader := .consuming prodPos (posAt p (layout.extent (r.samples.take (n + 1)))) count seen }
  | refuses {prodPos length : UInt32} {count seen : Nat} {x : Slot Sample}
      (hreader : r.reader = .committed prodPos r.consumerPos length count seen) (hn : n = m)
      (hx : r.samples[n]? = some x) (hst : x.status = .committed) (hsize : x.value.len.toUInt64 ≠ g.valueSize) :
      Access g p r m n
        { r with
          consumerPos := posAt p (layout.extent (r.samples.take (n + 1)))
          reader := .opened
          events := r.events ++ [.sizeError x.value.len] }
  | delivers {prodPos length : UInt32} {count seen : Nat} {x : Slot Sample}
      (hreader : r.reader = .committed prodPos r.consumerPos length count seen) (hn : n = m)
      (hsaw : Saw p r prodPos (n + 1) seen) (hx : r.samples[n]? = some x) (hst : x.status = .committed)
      (hsize : x.value.len.toUInt64 = g.valueSize) :
      Access g p r m n
        { r with
          reader := .called prodPos (posAt p (layout.extent (r.samples.take (n + 1)))) (count + 1) seen
          events := r.events ++ [.delivered x.value.bytes] }
  | advances {prodPos : UInt32} {count seen : Nat} {x : Slot Sample}
      (hreader : r.reader = .called prodPos (posAt p (layout.extent (r.samples.take n))) count seen) (hn : n = m + 1)
      (hsaw : Saw p r prodPos n seen) (hx : r.samples[m]? = some x) (hb : x.status ≠ .busy) :
      Access g p r m n
        { r with
          consumerPos := posAt p (layout.extent (r.samples.take n))
          reader := .consuming prodPos (posAt p (layout.extent (r.samples.take n))) count seen }

theorem access_of_tick {g : Geometry} {p : UInt64} {r t : Ring} {m n : Nat} (ht : Tiles g p r m) (hf : Follows p r m n)
    (hs : r.tick g = some t) : Access g p r m n t := by
  unfold Ring.tick at hs
  unfold Follows at hf
  cases hreader : r.reader with
  | closed => simp [hreader] at hs
  | opened => simp [hreader] at hs
  | sampled prodPos seen =>
    simp only [hreader, Option.some.injEq] at hs hf
    subst hs
    exact .starts hreader hf.1 hf.2
  | consuming prodPos consPos count seen =>
    simp only [hreader] at hs hf
    obtain ⟨rfl, rfl, hsaw⟩ := hf
    split at hs
    · rename_i hne
      have hlt : n < seen := by
        rw [bne_iff_ne, ne_eq, ht.reached_iff hsaw] at hne
        exact lt_of_le_of_ne hsaw.le hne
      have hx : r.samples[n]? = some _ := List.getElem?_eq_getElem (lt_of_lt_of_le hlt hsaw.seen_le)
      have hlen := ht.len_lt (Nat.le_refl _) hx
      rw [ht.load_header hx] at hs
      split at hs
      · rename_i hbusy
        obtain rfl := Option.some.inj hs
        exact .returns hreader rfl (.inr ⟨_, hx, (headerOf_and_busyBit hlen).mp hbusy⟩)
      · rename_i hbusy
        obtain rfl := Option.some.inj hs
        refine .finds hreader rfl ⟨hlt, hsaw.seen_le, hsaw.prodPos_eq⟩ hx fun hb => ?_
        exact hbusy ((headerOf_and_busyBit hlen).mpr hb)
    · rename_i heq
      rw [bne_iff_ne, ne_eq, not_not, ht.reached_iff hsaw] at heq
      obtain rfl := Option.some.inj hs
      exact .returns hreader rfl (.inl heq)
  | committed prodPos consPos length count seen =>
    simp only [hreader] at hs hf
    obtain ⟨rfl, rfl, hsaw, x, hx, hb, rfl⟩ := hf
    have hlen := ht.len_lt (Nat.le_refl _) hx
    rw [ht.consumerPos_add hx] at hs
    split at hs
    · rename_i hdiscard
      have hst : x.status = .committed := by
        have := (headerOf_and_discardBit hlen).mp hdiscard
        cases hst : x.status with
        | busy => exact absurd hst hb
        | committed => rfl
        | discarded => exact absurd hst this
      have hhdr : headerOf x.value.len x.status = x.value.len := by rw [hst]; rfl
      rw [hhdr] at hs
      split at hs
      · rename_i hsize
        obtain rfl := Option.some.inj hs
        exact .refuses hreader rfl hx hst hsize
      · rename_i hsize
        rw [not_not] at hsize
        have hvalue := ht.load_value hx
        have hlength : x.value.len.toNat = g.valueSize.toNat := by rw [← hsize, UInt32.toNat_toUInt64]
        rw [hlength] at hvalue
        rw [hvalue] at hs
        obtain rfl := Option.some.inj hs
        exact .delivers hreader rfl hsaw hx hst hsize
    · rename_i hdiscard
      have hst : x.status = .discarded := by
        by_contra hne
        exact hdiscard ((headerOf_and_discardBit hlen).mpr hne)
      obtain rfl := Option.some.inj hs
      exact .skips hreader rfl hsaw hx hst
  | called prodPos consPos count seen =>
    simp only [hreader, Option.some.injEq] at hs hf
    obtain ⟨hn, rfl, hsaw, x, hx, hb⟩ := hf
    subst hs
    exact .advances hreader hn hsaw hx hb

/-! ### The simulation -/

/-- The ring shows the queue of its samples: those that the reader has passed are those it has handed out. -/
def Shows (g : Geometry) (p : UInt64) (r : Ring) (q : Queue Sample) : Prop :=
  ∃ m, Tiles g p r m ∧ Follows p r m q.head ∧ q.slots = r.samples ∧ q.Ordered ∧
    r.events.filter Event.handed = q.passed.filterMap (report g)

/-- A step of the queue, or none. -/
def Moved (q q' : Queue Sample) : Prop := q' = q ∨ ∃ a, q.step a = some q'

section Simulation
variable {g : Geometry} {p : UInt64} {r t : Ring} {q : Queue Sample}

theorem Shows.producer {m : Nat} (hfollows : Follows p r m q.head) (ho : q.Ordered)
    (hevents : r.events.filter Event.handed = q.passed.filterMap (report g)) (ht : Tiles g p t m)
    (he : Extends r.samples t.samples) (hreader : t.reader = r.reader) (hc : t.consumerPos = r.consumerPos)
    (hev : t.events = r.events) {a : Fifo.Action Sample} (hq : q.step a = some ⟨t.samples, q.head⟩)
    (ha : a ≠ .pass) : ∃ q', Moved q q' ∧ Shows g p t q' := by
  refine ⟨⟨t.samples, q.head⟩, .inr ⟨a, hq⟩, m, ht, hfollows.of_extends he hreader hc, rfl, ho.step hq, ?_⟩
  rcases Queue.step_passed ho hq with ⟨x, hpass, -⟩ | ⟨-, hpassed, -⟩
  · exact absurd hpass ha
  · rw [hpassed, hev, hevents]

theorem Shows.stutter {m : Nat} (ht : Tiles g p t m) (hf : Follows p t m q.head) (hslots : q.slots = t.samples)
    (ho : q.Ordered) (hevents : t.events.filter Event.handed = q.passed.filterMap (report g)) :
    ∃ q', Moved q q' ∧ Shows g p t q' :=
  ⟨q, .inl rfl, m, ht, hf, hslots, ho, hevents⟩

theorem Shows.pass {m : Nat} {x : Slot Sample} (ht : Tiles g p t m) (hf : Follows p t m (q.head + 1))
    (hslots : q.slots = t.samples) (ho : q.Ordered) (hx : t.samples[q.head]? = some x) (hb : x.status ≠ .busy)
    (hevents : t.events.filter Event.handed = q.passed.filterMap (report g) ++ (report g x).toList) :
    ∃ q', Moved q q' ∧ Shows g p t q' := by
  have hq : q.step .pass = some { q with head := q.head + 1 } := by simp [Queue.step, hslots, hx, hb]
  refine ⟨{ q with head := q.head + 1 }, .inr ⟨.pass, hq⟩, m, ht, hf, hslots, ho.step hq, ?_⟩
  rcases Queue.step_passed ho hq with ⟨y, -, hy, -, hpassed⟩ | ⟨hne, -⟩
  · rw [hslots, hx] at hy
    cases hy
    rw [hpassed, filterMap_report_concat, hevents]
  · exact absurd rfl hne

theorem tick_sim (h : Shows g p r q) (hs : r.tick g = some t) : ∃ q', Moved q q' ∧ Shows g p t q' := by
  obtain ⟨m, ht, hf, hslots, ho, hevents⟩ := h
  have htiles {reader : Reader} {events : List Event} : Tiles g p { r with reader, events } m :=
    ⟨ht.1, ht.2, ht.3, ht.4, ht.5, ht.6⟩
  cases access_of_tick ht hf hs with
  | starts hreader hn hsaw => exact Shows.stutter htiles ⟨hn, rfl, hsaw.of_extends (.refl _)⟩ hslots ho hevents
  | returns hreader hn hend =>
    exact Shows.stutter htiles hn hslots ho (by simp [List.filter_append, Event.handed, hevents])
  | finds hreader hn hsaw hx hb =>
    exact Shows.stutter htiles ⟨hn, rfl, hsaw.of_extends (.refl _), _, hx, hb, rfl⟩ hslots ho hevents
  | skips hreader hn hsaw hx hst =>
    have hb := hst.trans_ne (by simp : Status.discarded ≠ .busy)
    subst hn
    refine Shows.pass (ht.advance hx hb rfl rfl rfl rfl) ⟨rfl, rfl, hsaw.of_extends (.refl _)⟩ hslots ho hx hb ?_
    simp [hevents, report, hst]
  | refuses hreader hn hx hst hsize =>
    -- A value of another size: it is skipped, and the call reports it.
    have hb := hst.trans_ne (by simp : Status.committed ≠ .busy)
    subst hn
    refine Shows.pass (ht.advance hx hb rfl rfl rfl rfl) rfl hslots ho hx hb ?_
    simp [List.filter_append, Event.handed, hevents, report, hst, hsize]
  | delivers hreader hn hsaw hx hst hsize =>
    have hb := hst.trans_ne (by simp : Status.committed ≠ .busy)
    subst hn
    refine Shows.pass htiles ⟨rfl, rfl, hsaw.of_extends (.refl _), _, hx, hb⟩ hslots ho hx hb ?_
    simp [List.filter_append, Event.handed, hevents, report, hst, hsize]
  | advances hreader hn hsaw hx hb =>
    rw [hn] at hsaw ⊢
    refine Shows.stutter (ht.advance hx hb rfl rfl rfl rfl) ?_ hslots ho hevents
    rw [hn]
    exact ⟨rfl, rfl, hsaw.of_extends (.refl _)⟩

/-- Every step of the ring is a step of the queue, or leaves the queue as it is. -/
theorem step_sim (h : Shows g p r q) {a : Action} (hs : r.step g a = some t) :
    ∃ q', Moved q q' ∧ Shows g p t q' := by
  obtain ⟨m, ht, hf, hslots, ho, hevents⟩ := h
  cases a with
  | reserve len pgOff =>
    rcases ht.reserve (Option.some.inj hs) with rfl | ⟨ht', he, hreader, hc, hev, x, hx⟩
    · exact Shows.stutter ht hf hslots ho hevents
    · refine Shows.producer hf ho hevents ht' he hreader hc hev (a := .reserve x) ?_ (by simp)
      rw [Queue.step, hslots, hx]
  | write i bytes =>
    obtain ⟨ht', he, hreader, hc, hev, x, y, hx, hsamples⟩ := ht.write hs
    refine Shows.producer hf ho hevents ht' he hreader hc hev (a := .write i y) ?_ (by simp)
    simp only [Queue.step, Queue.busy?, hslots, hx, hsamples, Option.bind_eq_bind, Option.bind_some]
  | commit i =>
    obtain ⟨ht', he, hreader, hc, hev, x, hx, hsamples⟩ := ht.settle hs
    refine Shows.producer hf ho hevents ht' he hreader hc hev (a := .settle i .committed) ?_ (by simp)
    simp only [Queue.step, Queue.busy?, hslots, hx, hsamples, Option.bind_eq_bind, Option.bind_some]
    rfl
  | discard i =>
    obtain ⟨ht', he, hreader, hc, hev, x, hx, hsamples⟩ := ht.settle hs
    refine Shows.producer hf ho hevents ht' he hreader hc hev (a := .settle i .discarded) ?_ (by simp)
    simp only [Queue.step, Queue.busy?, hslots, hx, hsamples, Option.bind_eq_bind, Option.bind_some]
    rfl
  | create =>
    simp only [Ring.step] at hs
    split at hs
    · rename_i hreader
      obtain rfl := Option.some.inj hs
      simp only [Follows, hreader] at hf
      exact Shows.stutter (m := m) ⟨ht.1, ht.2, ht.3, ht.4, ht.5, ht.6⟩ hf hslots ho hevents
    · cases hs
  | consumeAll =>
    simp only [Ring.step] at hs
    split at hs
    · rename_i hreader
      obtain rfl := Option.some.inj hs
      simp only [Follows, hreader] at hf
      refine Shows.stutter (m := m) ⟨ht.1, ht.2, ht.3, ht.4, ht.5, ht.6⟩ ⟨hf, ?_, Nat.le_refl _, ?_⟩ hslots ho hevents
      · rw [hf]
        exact ht.ordered.head_le
      · rw [List.take_length, ← ht.producer]
    · cases hs
  | tick => exact tick_sim ⟨m, ht, hf, hslots, ho, hevents⟩ hs
  | destroy =>
    simp only [Ring.step] at hs
    split at hs
    · rename_i hreader
      obtain rfl := Option.some.inj hs
      simp only [Follows, hreader] at hf
      exact Shows.stutter (m := m) ⟨ht.1, ht.2, ht.3, ht.4, ht.5, ht.6⟩ hf hslots ho hevents
    · cases hs

theorem Shows.empty (data : Nat → UInt8) : Shows g p (Ring.empty p data) {} :=
  ⟨0, .empty data, rfl, rfl, .empty, rfl⟩

theorem exists_shows {data : Nat → UInt8} (h : Reachable g p data r) :
    ∃ q, Steps.Reachable Queue.step {} q ∧ Shows g p r q := by
  induction h with
  | init => exact ⟨{}, .init, .empty data⟩
  | step _ hs ih =>
    obtain ⟨q, hq, hshows⟩ := ih
    obtain ⟨q', hmoved, hshows'⟩ := step_sim hshows hs
    rcases hmoved with rfl | ⟨a, ha⟩
    · exact ⟨_, hq, hshows'⟩
    · exact ⟨q', hq.step ha, hshows'⟩

end Simulation

/-! ### A call ends -/

/-- A bound on the accesses that a call still makes: three for each byte between its position and the
    producer position that it read. -/
def Ring.work (r : Ring) : Nat :=
  match r.reader with
  | .closed | .opened => 0
  | .sampled prodPos _ => 3 * (prodPos - r.consumerPos.toUInt32).toNat + 2
  | .consuming prodPos consPos _ _ => 3 * (prodPos - consPos.toUInt32).toNat + 1
  | .committed prodPos consPos _ _ _ => 3 * (prodPos - consPos.toUInt32).toNat
  | .called prodPos consPos _ _ => 3 * (prodPos - consPos.toUInt32).toNat + 2

section Work
variable {g : Geometry} {p : UInt64} {r t : Ring} {q : Queue Sample} {m n seen : Nat}

theorem Tiles.toNat_sub_low (h : Tiles g p r m) {prodPos : UInt32} (hmn : m ≤ n) (hs : Saw p r prodPos n seen) :
    (prodPos - (posAt p (layout.extent (r.samples.take n))).toUInt32).toNat =
      layout.extent ((r.samples.take seen).drop n) := by
  have hroom := h.room
  have hmax := g.maxEntries_le
  have hn := extent_take_drop r.samples hs.le
  have hm := extent_take_drop r.samples hmn
  have hsum := layout.extent_take_add_drop r.samples m
  have hseen := layout.extent_take_add_drop r.samples seen
  rw [hs.prodPos_eq, UInt32.toNat_sub]
  simp only [UInt64.toNat_toUInt32, toNat_posAt]
  omega

/-- The header of a sample that is passed takes at least 8 bytes. -/
theorem Tiles.toNat_sub_low_add (h : Tiles g p r m) {prodPos : UInt32} (hs : Saw p r prodPos (m + 1) seen)
    {x : Slot Sample} (hx : r.samples[m]? = some x) :
    (prodPos - (posAt p (layout.extent (r.samples.take (m + 1)))).toUInt32).toNat + 8 ≤
      (prodPos - r.consumerPos.toUInt32).toNat := by
  have hle : m ≤ seen := (Nat.le_succ m).trans hs.le
  have hsucc := h.toNat_sub_low (Nat.le_add_right m 1) hs
  have hcur := h.toNat_sub_low (Nat.le_refl _) ⟨hle, hs.seen_le, hs.prodPos_eq⟩
  rw [← h.consumer] at hcur
  have hstep := extent_take_succ hx
  have hrest := extent_take_drop r.samples hle
  have hrest' := extent_take_drop r.samples hs.le
  have := eight_le_rounded x.value.len
  omega

/-- Each access of a call that goes on lowers the bound: the loop makes at most three for a sample. -/
theorem work_lt (h : Shows g p r q) (hs : r.tick g = some t) (hrunning : t.reader.running) : t.work < r.work := by
  obtain ⟨m, ht, hf, -⟩ := h
  cases access_of_tick ht hf hs with
  | starts hreader hn hsaw => simp [Ring.work, hreader]
  | returns hreader hn hend => simp [Reader.running] at hrunning
  | finds hreader hn hsaw hx hb => simp [Ring.work, hreader]
  | skips hreader hn hsaw hx hst =>
    subst hn
    have := ht.toNat_sub_low_add hsaw hx
    simp only [Ring.work, hreader]
    omega
  | refuses hreader hn hx hst hsize => simp [Reader.running] at hrunning
  | delivers hreader hn hsaw hx hst hsize =>
    subst hn
    have := ht.toNat_sub_low_add hsaw hx
    simp only [Ring.work, hreader]
    omega
  | advances hreader hn hsaw hx hb => simp [Ring.work, hreader]

theorem exists_tick (hrunning : r.reader.running) : ∃ t, r.tick g = some t := by
  unfold Ring.tick
  cases hreader : r.reader with
  | closed => simp [hreader, Reader.running] at hrunning
  | opened => simp [hreader, Reader.running] at hrunning
  | sampled prodPos seen => exact ⟨_, rfl⟩
  | consuming prodPos consPos count seen => simp only; split <;> [split; skip] <;> exact ⟨_, rfl⟩
  | committed prodPos consPos length count seen => simp only; split <;> [split; skip] <;> exact ⟨_, rfl⟩
  | called prodPos consPos count seen => exact ⟨_, rfl⟩

theorem work_eq {a : Action} (ha : a ≠ .tick) (hrunning : r.reader.running) (hs : r.step g a = some t) :
    t.reader = r.reader ∧ t.work = r.work := by
  have hkeep : t.reader = r.reader → t.consumerPos = r.consumerPos → t.reader = r.reader ∧ t.work = r.work := by
    intro hreader hc
    refine ⟨hreader, ?_⟩
    simp only [Ring.work, hreader, hc]
  cases a with
  | reserve len pgOff =>
    obtain rfl := Option.some.inj hs
    unfold Ring.reserve at hkeep ⊢
    split <;> exact ⟨rfl, rfl⟩
  | write i bytes =>
    obtain ⟨x, -, hs⟩ := Option.bind_eq_some_iff.mp hs
    split at hs
    · obtain rfl := Option.some.inj hs
      exact hkeep rfl rfl
    · cases hs
  | commit i =>
    obtain ⟨x, -, hs⟩ := Option.bind_eq_some_iff.mp hs
    obtain rfl := Option.some.inj hs
    exact hkeep rfl rfl
  | discard i =>
    obtain ⟨x, -, hs⟩ := Option.bind_eq_some_iff.mp hs
    obtain rfl := Option.some.inj hs
    exact hkeep rfl rfl
  | tick => exact absurd rfl ha
  | create =>
    simp only [Ring.step] at hs
    split at hs
    · rename_i hreader
      simp [hreader, Reader.running] at hrunning
    · cases hs
  | consumeAll =>
    simp only [Ring.step] at hs
    split at hs
    · rename_i hreader
      simp [hreader, Reader.running] at hrunning
    · cases hs
  | destroy =>
    simp only [Ring.step] at hs
    split at hs
    · rename_i hreader
      simp [hreader, Reader.running] at hrunning
    · cases hs

end Work

/-! ### The refinement -/

/-- A call that returns has passed every sample that it saw reserved before the first busy one. -/
theorem lt_head_of_returned {g : Geometry} {p : UInt64} {r t : Ring} {q : Queue Sample} (h : Shows g p r q)
    (hs : r.tick g = some t) {count seen : Nat} (hret : t.events = r.events ++ [.returned count seen]) {j : Nat}
    (hj : j < seen) (hsettled : ∀ i ≤ j, ∀ x, r.samples[i]? = some x → x.status ≠ .busy) : j < q.head := by
  obtain ⟨m, ht, hf, -⟩ := h
  cases access_of_tick ht hf hs with
  | returns hreader hn hend =>
    simp only [List.append_cancel_left_eq, List.cons.injEq, Event.returned.injEq, and_true] at hret
    rcases hend with hall | ⟨x, hx, hbusy⟩
    · omega
    · -- The call stopped at a busy sample: what is settled lies before it.
      by_contra hle
      exact hsettled q.head (by omega) x hx hbusy
  | starts => simp at hret
  | finds => simp at hret
  | skips => simp at hret
  | refuses => simp at hret
  | delivers => simp at hret
  | advances => simp at hret

/-- `ConsumeAll` refines the queue, over every interleaving with the producers: the samples are those of
    a run of the queue, what was handed out is the report of the samples passed, a call that returns has
    passed all that it saw settled, and a call that is under way comes to its end. -/
theorem consumeAll_refines_fifo {g : Geometry} {p : UInt64} {data : Nat → UInt8} {r : Ring}
    (h : Reachable g p data r) :
    (∃ q : Queue Sample, Steps.Reachable Queue.step {} q ∧ q.slots = r.samples ∧
      (∀ x ∈ q.passed, x.status ≠ .busy) ∧
      r.events.filter Event.handed = q.passed.filterMap (report g) ∧
      ∀ t count seen, r.tick g = some t → t.events = r.events ++ [.returned count seen] →
        ∀ j < seen, (∀ i ≤ j, ∀ x, r.samples[i]? = some x → x.status ≠ .busy) → j < q.head) ∧
    (r.reader.running → ∃ t, r.tick g = some t ∧ (t.reader.running → t.work < r.work)) ∧
    ∀ a t, a ≠ Action.tick → r.reader.running → r.step g a = some t → t.reader = r.reader ∧ t.work = r.work := by
  obtain ⟨q, hq, hshows⟩ := exists_shows h
  have hordered := Queue.ordered_of_reachable hq
  obtain ⟨m, -, -, hslots, -, hevents⟩ := id hshows
  refine ⟨⟨q, hq, hslots, hordered.settled, hevents, fun t count seen hs hret j hj hsettled =>
    lt_head_of_returned hshows hs hret hj hsettled⟩, fun hrunning => ?_, fun a t ha hrunning hs =>
    work_eq ha hrunning hs⟩
  obtain ⟨t, ht⟩ := exists_tick (g := g) hrunning
  exact ⟨t, ht, work_lt hshows ht⟩

def smallRing : Geometry := ⟨5, by decide, 8⟩

/-- Three samples around the wrap of the positions: a first call delivers one of 8 bytes, a second skips
    a discarded one and reports one of 4 bytes. -/
def wrapped : List Action :=
  [.create, .reserve 8 0, .write 0 [1, 2, 3, 4, 5, 6, 7, 8], .commit 0, .consumeAll, .tick, .tick, .tick, .tick,
    .tick, .reserve 0 0, .reserve 4 0, .commit 2, .discard 1, .consumeAll, .tick, .tick, .tick, .tick, .tick]

theorem consumeAll_refines_fifo_wrapped :
    ∃ r q, Steps.run (Ring.step smallRing) (Ring.empty 0xFFFFFFFFFFFFFFF8 fun _ => 0) wrapped = some r ∧
      Steps.Reachable Queue.step {} q ∧ q.slots = r.samples ∧
      q.passed.filterMap (report smallRing) = [.delivered [1, 2, 3, 4, 5, 6, 7, 8], .sizeError 4] := by
  have hrun : (Steps.run (Ring.step smallRing) (Ring.empty 0xFFFFFFFFFFFFFFF8 fun _ => 0) wrapped).map (·.events) =
      some [.delivered [1, 2, 3, 4, 5, 6, 7, 8], .returned 1 1, .sizeError 4] := by decide +kernel
  obtain ⟨r, hr, hevents⟩ := Option.map_eq_some_iff.mp hrun
  obtain ⟨⟨q, hq, hslots, -, hhanded, -⟩, -⟩ := consumeAll_refines_fifo (Steps.Reachable.init.of_run hr)
  refine ⟨r, q, hr, hq, hslots, ?_⟩
  rw [← hhanded, hevents]
  rfl

end UprobeStats.BpfRingbuf
