import UprobeStats.Theorems.RingHeader

/-! The invariant of the ring buffer. From the consumer position to the producer position the ring is
    tiled by the samples that the reader has not passed, each with its header and its value, through
    every wrap of the data area and of the positions. The producers' steps keep it. -/

namespace UprobeStats.BpfRingbuf
open Circular Fifo

/-! ### Positions -/

def posAt (p : UInt64) (n : Nat) : UInt64 := p + UInt64.ofNat n

theorem toNat_posAt {p : UInt64} {n : Nat} : (posAt p n).toNat = (p.toNat + n) % 2 ^ 64 := by
  simp [posAt, UInt64.toNat_add]

theorem posAt_posAt {p : UInt64} {a b : Nat} : posAt (posAt p a) b = posAt p (a + b) := by
  apply UInt64.toNat_inj.mp
  simp only [toNat_posAt]
  omega

theorem toNat_posAt_sub {p : UInt64} {a b : Nat} (hab : a ≤ b) (hlt : b - a < 2 ^ 64) :
    (posAt p b - posAt p a).toNat = b - a := by
  rw [UInt64.toNat_sub]
  simp only [toNat_posAt]
  omega

namespace Geometry

theorem maxEntries_pos (g : Geometry) : 0 < g.maxEntries := Nat.pow_pos (by omega)

theorem maxEntries_le (g : Geometry) : g.maxEntries ≤ 2 ^ 28 := Nat.pow_le_pow_right (by omega) g.bits_le

theorem maxEntries_dvd (g : Geometry) : g.maxEntries ∣ 2 ^ 64 :=
  Nat.pow_dvd_pow 2 (le_trans g.bits_le (by omega))

theorem toNat_posMask (g : Geometry) : g.posMask.toNat = 2 ^ g.bits - 1 := by
  have h := g.maxEntries_le
  unfold posMask maxEntries at *
  rw [UInt64.toNat_ofNat', Nat.mod_eq_of_lt (by omega)]

theorem toNat_and_posMask (g : Geometry) (pos : UInt64) : (pos &&& g.posMask).toNat = pos.toNat % g.maxEntries := by
  rw [UInt64.toNat_and, toNat_posMask, Nat.and_two_pow_sub_one_eq_mod]
  rfl

theorem window_posAt (g : Geometry) {data : Nat → UInt8} {p : UInt64} {n : Nat} :
    window g.maxEntries data (posAt p n).toNat = window g.maxEntries data (p.toNat + n) := by
  rw [toNat_posAt, window_mod g.maxEntries_dvd]

theorem posAt_mod (g : Geometry) {p : UInt64} {n : Nat} :
    (posAt p n).toNat % g.maxEntries = (p.toNat + n) % g.maxEntries := by
  rw [toNat_posAt, Nat.mod_mod_of_dvd _ g.maxEntries_dvd]

end Geometry

/-- The reader sees the data area from its position on: the second mapping continues the first. -/
theorem cells_mapped {g : Geometry} {r : Ring} (pos : UInt64) {o k : Nat} :
    cells (r.mapped g) ((pos &&& g.posMask).toNat + o) k = cells (window g.maxEntries r.data pos.toNat) o k := by
  unfold cells
  refine List.map_congr_left fun i _ => ?_
  show r.data _ = r.data _
  rw [g.toNat_and_posMask, Nat.add_assoc, Nat.mod_add_mod]

/-! ### Samples in memory -/

/-- A sample takes its rounded length: its header, then its value. -/
def layout : Layout (Slot Sample) UInt8 where
  span x := rounded x.value.len
  Holds w x := UInt32.ofNat (Bytes.ofLe (cells w 0 4)) = headerOf x.value.len x.status ∧
    cells w 8 x.value.len.toNat = x.value.bytes
  congr := by
    intro w w' x h hx
    unfold rounded at h
    rw [cells_congr fun j _ hj => (h j (by omega)).symm, cells_congr fun j _ hj => (h j (by omega)).symm]
    exact hx

theorem span_eq (x : Slot Sample) : layout.span x = rounded x.value.len := rfl

theorem eight_le_rounded (len : UInt32) : len.toNat + 8 ≤ rounded len := by
  unfold rounded
  omega

section Lists
variable {xs : List (Slot Sample)} {x y : Slot Sample} {m i : Nat}

theorem drop_eq_append (hm : m ≤ i) (hx : xs[i]? = some x) :
    xs.drop m = (xs.take i).drop m ++ x :: xs.drop (i + 1) := by
  obtain ⟨hi, rfl⟩ := List.getElem?_eq_some_iff.mp hx
  have hsplit : xs = xs.take i ++ xs[i] :: xs.drop (i + 1) := by simp
  conv_lhs => rw [hsplit]
  rw [List.drop_append_of_le_length (by simp; omega)]

theorem drop_set_eq_append (hm : m ≤ i) (hi : i < xs.length) :
    (xs.set i y).drop m = (xs.take i).drop m ++ y :: xs.drop (i + 1) := by
  rw [drop_eq_append (x := y) hm (by simp [hi]), List.take_set_of_le (Nat.le_refl i),
    List.drop_set_of_lt (Nat.lt_succ_self i)]

theorem extent_take_drop (xs : List (Slot Sample)) (hm : m ≤ i) :
    layout.extent (xs.take m) + layout.extent ((xs.take i).drop m) = layout.extent (xs.take i) := by
  rw [← layout.extent_take_add_drop (xs.take i) m, List.take_take, Nat.min_eq_left hm]

theorem extent_take_succ (hx : xs[i]? = some x) :
    layout.extent (xs.take (i + 1)) = layout.extent (xs.take i) + rounded x.value.len := by
  rw [List.take_add_one, hx]
  simp [span_eq]

end Lists

/-- What the producers' steps do to the samples: they add new ones and change busy ones, but never the
    length of a sample or one that is settled. -/
structure Extends (xs ys : List (Slot Sample)) : Prop where
  length_le : xs.length ≤ ys.length
  extent : ∀ i ≤ xs.length, layout.extent (ys.take i) = layout.extent (xs.take i)
  settled : ∀ (i : Nat) (x : Slot Sample), xs[i]? = some x → x.status ≠ .busy → ys[i]? = some x

namespace Extends
variable {xs ys : List (Slot Sample)} {x y : Slot Sample} {i : Nat}

theorem refl (xs : List (Slot Sample)) : Extends xs xs := ⟨Nat.le_refl _, fun _ _ => rfl, fun _ _ h _ => h⟩

theorem append (xs zs : List (Slot Sample)) : Extends xs (xs ++ zs) where
  length_le := by simp
  extent i hi := by rw [List.take_append_of_le_length hi]
  settled i x hx _ := by
    rw [List.getElem?_append_left (List.getElem?_eq_some_iff.mp hx).1]
    exact hx

theorem set (hx : xs[i]? = some x) (hb : x.status = .busy) (hlen : y.value.len = x.value.len) :
    Extends xs (xs.set i y) where
  length_le := by simp
  extent j _ := by
    refine Layout.extent_congr ?_
    rw [List.map_take, List.map_take, List.map_set]
    congr 1
    obtain ⟨hi, rfl⟩ := List.getElem?_eq_some_iff.mp hx
    refine List.ext_getElem (by simp) fun k hk _ => ?_
    by_cases hik : i = k
    · subst hik
      simp [span_eq, hlen]
    · simp [List.getElem_set_ne hik]
  settled j z hz hnb := by
    by_cases hij : i = j
    · subst hij
      rw [hx] at hz
      cases hz
      exact absurd hb hnb
    · rw [List.getElem?_set_ne hij]
      exact hz

theorem take_eq (h : Extends xs ys) {n : Nat} (hn : n ≤ xs.length) (hs : ∀ x ∈ xs.take n, x.status ≠ .busy) :
    ys.take n = xs.take n := by
  have hle := h.length_le
  refine List.ext_getElem? fun i => ?_
  by_cases hi : i < n
  · have hx : xs[i]? = some xs[i] := List.getElem?_eq_getElem (by omega)
    rw [List.getElem?_take_of_lt hi, List.getElem?_take_of_lt hi, hx]
    refine h.settled i _ hx (hs _ ?_)
    exact List.mem_of_getElem? (i := i) (by rw [List.getElem?_take_of_lt hi, hx])
  · rw [List.getElem?_eq_none (by simp; omega), List.getElem?_eq_none (by simp; omega)]

end Extends

/-! ### The tiling -/

/-- The reader has stored its position after the first `m` samples, and the others tile the ring from
    there to the producer position. -/
structure Tiles (g : Geometry) (p : UInt64) (r : Ring) (m : Nat) : Prop where
  ordered : Queue.Ordered ⟨r.samples, m⟩
  consumer : r.consumerPos = posAt p (layout.extent (r.samples.take m))
  producer : r.producerPos = posAt p (layout.extent r.samples)
  room : layout.extent (r.samples.drop m) < g.maxEntries
  pos : ∀ (i : Nat) (x : Slot Sample), r.samples[i]? = some x → x.value.pos = posAt p (layout.extent (r.samples.take i))
  tiled : layout.Tiled (window g.maxEntries r.data (p.toNat + layout.extent (r.samples.take m)))
    (r.samples.drop m)

namespace Tiles
variable {g : Geometry} {p : UInt64} {r : Ring} {m i : Nat} {x : Slot Sample}

theorem empty (data : Nat → UInt8) : Tiles g p (Ring.empty p data) 0 where
  ordered := ⟨Nat.le_refl _, by simp [Queue.passed]⟩
  consumer := by simp [Ring.empty, posAt]
  producer := by simp [Ring.empty, posAt]
  room := g.maxEntries_pos
  pos i x h := by simp [Ring.empty] at h
  tiled := trivial

/-- A sample that the reader has not passed fits the ring, so its length leaves the flag bits free. -/
theorem len_lt (h : Tiles g p r m) (hm : m ≤ i) (hx : r.samples[i]? = some x) : x.value.len.toNat < 2 ^ 30 := by
  have hroom := h.room
  rw [drop_eq_append hm hx, Layout.extent_append, Layout.extent_cons, span_eq] at hroom
  have := eight_le_rounded x.value.len
  have := g.maxEntries_le
  omega

theorem holds (h : Tiles g p r m) (hm : m ≤ i) (hx : r.samples[i]? = some x) :
    layout.Holds (window g.maxEntries r.data x.value.pos.toNat) x := by
  have ht := h.tiled
  rw [drop_eq_append hm hx] at ht
  have := ht.holds
  rwa [← window_add, Nat.add_assoc, extent_take_drop _ hm, ← g.window_posAt, ← h.pos i x hx] at this

theorem header_eq (h : Tiles g p r m) (hm : m ≤ i) (hx : r.samples[i]? = some x) :
    r.header g x.value.pos = headerOf x.value.len x.status := (h.holds hm hx).1

/-- A step that keeps the samples up to `m` and the consumer position. -/
theorem ordered_of_extends (h : Tiles g p r m) {ys : List (Slot Sample)} (he : Extends r.samples ys) :
    Queue.Ordered ⟨ys, m⟩ where
  head_le := le_trans h.ordered.head_le he.length_le
  settled := by
    show ∀ x ∈ ys.take m, x.status ≠ .busy
    rw [he.take_eq h.ordered.head_le h.ordered.settled]
    exact h.ordered.settled

theorem update (h : Tiles g p r m) (hx : r.samples[i]? = some x) (hb : x.status = .busy) {y : Slot Sample}
    (hpos : y.value.pos = x.value.pos) (hlen : y.value.len = x.value.len) {o : Nat} {bs : List UInt8}
    (hfit : o + bs.length ≤ rounded x.value.len)
    (hy : layout.Holds (window g.maxEntries (store g.maxEntries r.data (posAt x.value.pos o).toNat bs)
      x.value.pos.toNat) y) :
    Tiles g p { r.storeAt g (posAt x.value.pos o) bs with samples := r.samples.set i y } m := by
  have hm : m ≤ i := h.ordered.head_le_of_busy (Queue.busy?_eq_some.mpr ⟨hx, hb⟩)
  have hi : i < r.samples.length := (List.getElem?_eq_some_iff.mp hx).1
  have he : Extends r.samples (r.samples.set i y) := .set hx hb hlen
  have htake : (r.samples.set i y).take m = r.samples.take m := List.take_set_of_le hm
  have hroom := h.room
  have hbase := extent_take_drop r.samples hm
  refine ⟨h.ordered_of_extends he, ?_, ?_, ?_, fun j z hz => ?_, ?_⟩
  · show r.consumerPos = _
    rw [htake, h.consumer]
  · show r.producerPos = _
    have := he.extent r.samples.length (Nat.le_refl _)
    rw [List.take_of_length_le (by simp), List.take_length] at this
    rw [this, h.producer]
  · show layout.extent ((r.samples.set i y).drop m) < _
    rw [drop_set_eq_append hm hi, Layout.extent_append, Layout.extent_cons, span_eq, hlen, ← span_eq x,
      ← Layout.extent_cons, ← Layout.extent_append, ← drop_eq_append hm hx]
    exact hroom
  · have hz : (r.samples.set i y)[j]? = some z := hz
    have hj : j < r.samples.length := by simpa using (List.getElem?_eq_some_iff.mp hz).1
    show _ = posAt p (layout.extent ((r.samples.set i y).take j))
    rw [he.extent j (by omega)]
    by_cases hij : i = j
    · subst hij
      rw [List.getElem?_set_self hi] at hz
      cases hz
      rw [hpos, h.pos i x hx]
    · rw [List.getElem?_set_ne hij] at hz
      exact h.pos j z hz
  · show layout.Tiled (window g.maxEntries (store g.maxEntries r.data (posAt x.value.pos o).toNat bs) _) _
    rw [htake, drop_set_eq_append hm hi]
    have ht := h.tiled
    rw [drop_eq_append hm hx] at ht hroom
    have hxpos := h.pos i x hx
    rw [Layout.extent_append, Layout.extent_cons, span_eq] at hroom
    refine ht.replace (by rw [span_eq, span_eq, hlen]) ?_ fun j hj hne => ?_
    · rw [← window_add, Nat.add_assoc, hbase, ← g.window_posAt, ← hxpos]
      exact hy
    · rw [span_eq] at hne
      rw [Layout.extent_append, Layout.extent_cons, span_eq] at hj
      refine window_store_of_not_mem (o := layout.extent ((r.samples.take i).drop m) + o) ?_ ?_ ?_ ?_
      · rw [hxpos, posAt_posAt, g.posAt_mod, ← hbase]
        congr 1
        omega
      · omega
      · omega
      · omega

/-- The bytes between the consumer and the producer position are those of the samples not passed. -/
theorem pending_eq (h : Tiles g p r m) :
    (r.producerPos - r.consumerPos).toNat = layout.extent (r.samples.drop m) := by
  have hsum := layout.extent_take_add_drop r.samples m
  have hroom := h.room
  have hmax := g.maxEntries_le
  rw [h.producer, h.consumer, toNat_posAt_sub (by omega) (by omega)]
  omega

theorem reserve (h : Tiles g p r m) {len pgOff : UInt32} {t : Ring} (ht : r.reserve g len pgOff = t) :
    t = r ∨ Tiles g p t m ∧ Extends r.samples t.samples ∧ t.reader = r.reader ∧
      t.consumerPos = r.consumerPos ∧ t.events = r.events ∧ ∃ x, t.samples = r.samples ++ [⟨x, .busy⟩] := by
  unfold Ring.reserve at ht
  split at ht
  · exact .inl ht.symm
  · rename_i hfits
    subst ht
    rw [h.pending_eq] at hfits
    have hlen := eight_le_rounded len
    have hmax := g.maxEntries_pos
    have hsum := layout.extent_take_add_drop r.samples m
    have hle : m ≤ r.samples.length := h.ordered.head_le
    -- The new sample starts where the pending ones end.
    have hmod : r.producerPos.toNat % g.maxEntries =
        (p.toNat + layout.extent (r.samples.take m) + layout.extent (r.samples.drop m)) % g.maxEntries := by
      rw [h.producer, g.posAt_mod, Nat.add_assoc, hsum]
    set hdr := Bytes.toLe 4 (len ||| busyBit).toNat ++ Bytes.toLe 4 pgOff.toNat with hhdr
    have hhlen : hdr.length = 8 := by simp [hhdr]
    refine .inr ⟨⟨h.ordered_of_extends (.append _ _), ?_, ?_, ?_, fun i x hx => ?_, ?_⟩, .append _ _, rfl, rfl, rfl,
      _, rfl⟩
    · show r.consumerPos = _
      rw [List.take_append_of_le_length hle, h.consumer]
    · show r.producerPos + _ = _
      rw [Layout.extent_append, Layout.extent_cons, Layout.extent_nil, span_eq, ← posAt_posAt, ← h.producer]
      rfl
    · rw [List.drop_append_of_le_length hle, Layout.extent_append, Layout.extent_cons, Layout.extent_nil, span_eq]
      show _ + (rounded len + 0) < _
      omega
    · rcases Nat.lt_or_ge i r.samples.length with hi | hi
      · have hx : (r.samples ++ _)[i]? = some x := hx
        rw [List.getElem?_append_left hi] at hx
        rw [List.take_append_of_le_length (by omega)]
        exact h.pos i x hx
      · have hx : (r.samples ++ _)[i]? = some x := hx
        rw [List.getElem?_append_right hi] at hx
        obtain ⟨hi', hx⟩ := List.getElem?_eq_some_iff.mp hx
        obtain rfl : i = r.samples.length := by simp at hi'; omega
        simp only [Nat.sub_self, List.getElem_cons_zero] at hx
        subst hx
        rw [List.take_left']
        · exact h.producer
        · rfl
    · rw [List.take_append_of_le_length hle, List.drop_append_of_le_length hle]
      refine Layout.tiled_append.mpr ⟨h.tiled.congr fun j hj => ?_, ⟨?_, ?_⟩, trivial⟩
      · exact (window_store_of_not_mem hmod (by omega) (by omega) (.inl hj)).symm
      · rw [← window_add, ← take_cells (show 4 ≤ hdr.length by omega)]
        show UInt32.ofNat (Bytes.ofLe ((cells (window _ (store _ r.data _ hdr) _) 0 hdr.length).take 4)) = _
        rw [cells_window_store _ (by rw [hmod]; rfl) (by omega), hhdr, List.take_left' Bytes.length_toLe,
          Bytes.ofLe_toLe_uint32]
        rfl
      · rw [← window_add]
        show cells (window _ (store _ r.data _ hdr) _) 8 len.toNat = cells (window _ r.data _) 8 len.toNat
        rw [cells_congr fun j _ hj => window_store_of_not_mem (o := 0) (by rw [hmod]; rfl) (by omega) (by omega)
          (.inr (by omega))]
        rw [Nat.add_assoc, hsum, ← g.window_posAt, ← h.producer]

theorem write (h : Tiles g p r m) {bytes : List UInt8} {t : Ring} (hs : r.write g i bytes = some t) :
    Tiles g p t m ∧ Extends r.samples t.samples ∧ t.reader = r.reader ∧ t.consumerPos = r.consumerPos ∧
      t.events = r.events ∧ ∃ (x : Slot Sample) (v : Sample), r.samples[i]?.filter (·.status = .busy) = some x ∧
        t.samples = r.samples.set i ⟨v, .busy⟩ := by
  obtain ⟨v, hv, hs⟩ := Option.bind_eq_some_iff.mp hs
  obtain ⟨x, hfilter, rfl⟩ := Option.map_eq_some_iff.mp hv
  obtain ⟨hx, hb⟩ := Queue.busy?_eq_some (q := ⟨r.samples, 0⟩).mp hfilter
  split at hs
  · rename_i hlen
    obtain rfl := Option.some.inj hs
    have hm : m ≤ i := h.ordered.head_le_of_busy (Queue.busy?_eq_some.mpr ⟨hx, hb⟩)
    have hspan := eight_le_rounded x.value.len
    have hn : rounded x.value.len ≤ g.maxEntries := by
      have := h.room
      rw [drop_eq_append hm hx, Layout.extent_append, Layout.extent_cons, span_eq] at this
      omega
    have hpos : (posAt x.value.pos 8).toNat % g.maxEntries = (x.value.pos.toNat + 8) % g.maxEntries := g.posAt_mod
    refine ⟨h.update hx hb (y := ⟨{ x.value with bytes }, .busy⟩) (o := 8) rfl rfl (by omega) ⟨?_, ?_⟩,
      .set hx hb rfl, rfl, rfl, rfl, x, _, hfilter, rfl⟩
    · rw [cells_congr fun j _ hj => window_store_of_not_mem hpos (by omega) (by omega) (.inl (by omega))]
      rw [← hb]
      exact (h.holds hm hx).1
    · show cells _ 8 x.value.len.toNat = bytes
      rw [← hlen]
      exact cells_window_store _ hpos (by omega)
  · cases hs

theorem settle (h : Tiles g p r m) {discard : Bool} {t : Ring} (hs : r.settle g i discard = some t) :
    Tiles g p t m ∧ Extends r.samples t.samples ∧ t.reader = r.reader ∧ t.consumerPos = r.consumerPos ∧
      t.events = r.events ∧ ∃ x : Slot Sample, r.samples[i]?.filter (·.status = .busy) = some x ∧
        t.samples = r.samples.set i ⟨x.value, if discard then .discarded else .committed⟩ := by
  obtain ⟨v, hv, hs⟩ := Option.bind_eq_some_iff.mp hs
  obtain ⟨x, hfilter, rfl⟩ := Option.map_eq_some_iff.mp hv
  obtain ⟨hx, hb⟩ := Queue.busy?_eq_some (q := ⟨r.samples, 0⟩).mp hfilter
  obtain rfl := Option.some.inj hs
  have hm : m ≤ i := h.ordered.head_le_of_busy (Queue.busy?_eq_some.mpr ⟨hx, hb⟩)
  have hlt := h.len_lt hm hx
  have hspan := eight_le_rounded x.value.len
  have hn : rounded x.value.len ≤ g.maxEntries := by
    have := h.room
    rw [drop_eq_append hm hx, Layout.extent_append, Layout.extent_cons, span_eq] at this
    omega
  have hhdr : (if discard then r.header g x.value.pos &&& ~~~busyBit ||| discardBit
      else r.header g x.value.pos &&& ~~~busyBit) =
      headerOf x.value.len (if discard then .discarded else .committed) := by
    rw [h.header_eq hm hx, hb, headerOf_busy_and_not hlt]
    cases discard <;> rfl
  have hpos : x.value.pos = posAt x.value.pos 0 := by simp [posAt]
  have hmod : (posAt x.value.pos 0).toNat % g.maxEntries = (x.value.pos.toNat + 0) % g.maxEntries := g.posAt_mod
  have hy : layout.Holds (window g.maxEntries (store g.maxEntries r.data (posAt x.value.pos 0).toNat
      (Bytes.toLe 4 (headerOf x.value.len (if discard then .discarded else .committed)).toNat)) x.value.pos.toNat)
      ⟨x.value, if discard then .discarded else .committed⟩ := by
    refine ⟨?_, ?_⟩
    · have := cells_window_store (m := r.data) (c := x.value.pos.toNat)
        (Bytes.toLe 4 (headerOf x.value.len (if discard then .discarded else .committed)).toNat) hmod (by rw [Bytes.length_toLe]; omega)
      rw [Bytes.length_toLe] at this
      rw [this, Bytes.ofLe_toLe_uint32]
    · show cells _ 8 x.value.len.toNat = x.value.bytes
      rw [cells_congr fun j _ hj => window_store_of_not_mem hmod (by rw [Bytes.length_toLe]; omega) (by omega)
        (.inr (by rw [Bytes.length_toLe]; omega))]
      exact (h.holds hm hx).2
  refine ⟨?_, .set hx hb rfl, rfl, rfl, rfl, x, hfilter, rfl⟩
  rw [hhdr]
  conv in r.storeAt g x.value.pos _ => rw [hpos]
  exact h.update hx hb (y := ⟨x.value, if discard then .discarded else .committed⟩) rfl rfl
    (by rw [Bytes.length_toLe]; omega) hy

end Tiles

end UprobeStats.BpfRingbuf
