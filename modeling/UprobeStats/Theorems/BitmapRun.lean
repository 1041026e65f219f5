import UprobeStats.Theorems.BitmapPeak
import UprobeStats.Theorems.BitmapReports
import UprobeStats.Theorems.Reports

/-! A whole run of the bitmap monitor. Each record that its handler takes is written at once if it is of an
    allocation; the two snapshots are written when the timer has expired, and only if every record was taken: the
    bitmaps at the peak and those that are left at the end. -/

namespace UprobeStats
open Rust Effect BitmapHistory

/-! ### Atoms -/

def allocationAtom? (uid : Int32) (data : BitmapAllocation) : Option Atom :=
  if data.type = 0 then some (.bitmapAllocated uid (Int32.ofInt data.width.toNat) (Int32.ofInt data.height.toNat))
  else none

def snapshotAtom (snapshotId : Int64) (atMaxSize : Bool) (bitmap : BitmapMetadata) : Atom :=
  .bitmapAllocationSnapshot bitmap.uid bitmap.width bitmap.height
    (convertToPixelStorageTypeEnum bitmap.pixelStorageType) snapshotId atMaxSize bitmap.activityName

def Atom.isSnapshot : Atom → Bool
  | .bitmapAllocationSnapshot .. => true
  | _ => false

def Session.snapshots {H T : Type} (s : Session H T) : List Atom := s.atoms.filter Atom.isSnapshot

section Atoms
variable {env : Env} {task : ResolvedTask} {data : BitmapAllocation}
  {s t : Session BitmapAllocationHandlerV1 BitmapAllocation} {u : PUnit}

/-- A record that is taken is written when it is of an allocation. -/
theorem atoms_onItem (h : (BitmapAllocationHandlerV1.onItem env task data).run s = .ok u t) :
    t.atoms = s.atoms ++ (allocationAtom? task.uid data).toList := by
  by_cases htype : data.type = 0
  · have hok := h
    rw [BitmapAllocationHandlerV1.onItem, if_pos htype, BitmapAllocationHandlerV1.onAllocation, run_get_bind] at hok
    obtain ⟨width, hwidth, hok⟩ := bind_lift_eq_ok.mp hok
    obtain ⟨height, hheight, hok⟩ := bind_lift_eq_ok.mp hok
    obtain ⟨pixelStorageType, hpixel, -⟩ := bind_lift_eq_ok.mp hok
    have hcalls := @calls_v1 env task data htype ⟨?_, ?_⟩ ?_ s
    · rw [h, after_ok] at hcalls
      rw [Session.atoms, hcalls, List.filterMap_append, allocationAtom?, if_pos htype]
      rfl
    · have := width.toInt_lt
      rw [tryI32_eq_ok] at hwidth
      omega
    · have := height.toInt_lt
      rw [tryI32_eq_ok] at hheight
      omega
    · have := pixelStorageType.toInt_lt
      rw [tryI32_eq_ok] at hpixel
      omega
  · have hcalls : t.calls = s.calls := (calls_v1_of_other htype).of_ok h
    rw [Session.atoms, Session.atoms, hcalls, allocationAtom?, if_neg htype, Option.toList_none, List.append_nil]

end Atoms

/-! ### No snapshot before the end -/

def SameSnapshots {H T : Type} (s t : Session H T) : Prop := t.snapshots = s.snapshots

section SameSnapshots
variable {H T α : Type}

instance : Std.Refl (@SameSnapshots H T) := ⟨fun _ => rfl⟩

instance : IsTrans (Session H T) SameSnapshots := ⟨fun _ _ _ hst htu => Eq.trans htu hst⟩

theorem sameSnapshots_call {c : Call} (hc : ∀ atom, c = .statsWrite atom → atom.isSnapshot = false)
    (answer : List Call → Except Error α) : Within (@SameSnapshots H T) (call c answer) := by
  intro s
  have hnone : (c.atom?.toList).filter Atom.isSnapshot = [] := by
    cases c with
    | statsWrite atom => simp [Call.atom?, hc atom rfl]
    | _ => rfl
  rw [after_call]
  have hatoms : Session.atoms { s with calls := s.calls ++ [c] } = s.atoms ++ c.atom?.toList := by
    rw [Session.atoms, Session.atoms, List.filterMap_append]
    cases hatom : c.atom? <;> simp [hatom]
  rw [SameSnapshots, Session.snapshots, hatoms, List.filter_append, hnone, List.append_nil, Session.snapshots]

theorem sameSnapshots_modifyHandler (f : H → H) : Within (@SameSnapshots H T) (modifyHandler f) :=
  .modify fun _ => rfl

theorem sameSnapshots_onItem (env : Env) (task : ResolvedTask) (data : BitmapAllocation) :
    Within SameSnapshots (BitmapAllocationHandlerV1.onItem env task data) := by
  unfold BitmapAllocationHandlerV1.onItem
  split
  · refine Within.get.bind fun _ => (Within.lift _).bind fun _ => (Within.lift _).bind fun _ => ?_
    refine (Within.lift _).bind fun _ => (sameSnapshots_call (by rintro _ ⟨⟩; rfl) _).bind fun _ => ?_
    refine (sameSnapshots_modifyHandler _).bind fun _ => (Within.lift _).bind fun _ => Within.get.bind fun _ => ?_
    refine (Within.lift _).bind fun _ => (sameSnapshots_modifyHandler _).bind fun _ => ?_
    exact sameSnapshots_modifyHandler _
  · split
    · refine (sameSnapshots_modifyHandler _).bind fun _ => (Within.lift _).bind fun _ => Within.get.bind fun _ => ?_
      exact (Within.lift _).bind fun _ => sameSnapshots_modifyHandler _
    · split
      · exact (Within.lift _).bind fun _ => sameSnapshots_modifyHandler _
      · exact .pure _

theorem sameSnapshots_handItem (env : Env) (task : ResolvedTask) (data : BitmapAllocation) :
    Within SameSnapshots (handItem bitmapAllocationHandlerV1 env task data) := by
  intro s
  exact sameSnapshots_onItem env task data { s with handed := s.handed ++ [data] }

end SameSnapshots

/-! ### While records are taken -/

/-- A monitor whose handler took all that it was handed. -/
structure Logged (uid : Int32) (s : Session BitmapAllocationHandlerV1 BitmapAllocation) : Prop where
  follows : Follows uid s.handed.reverse s.handler
  fresh : peak s.handed.reverse = 0 → s.handler.bitmapSnapshotAtMaxSize = []
  atoms : s.atoms = s.handed.filterMap (allocationAtom? uid)

theorem peak_nonneg : ∀ history : List BitmapAllocation, 0 ≤ peak history
  | [] => le_refl 0
  | _ :: history => (peak_nonneg history).trans (le_max_right _ _)

section Logged
variable {env : Env} {task : ResolvedTask} {data : BitmapAllocation}
  {s t : Session BitmapAllocationHandlerV1 BitmapAllocation} {u : PUnit}

/-- The snapshot is taken only with a new maximum. -/
theorem snapshot_onItem (h : (BitmapAllocationHandlerV1.onItem env task data).run s = .ok u t) :
    t.handler.bitmapSnapshotAtMaxSize = s.handler.bitmapSnapshotAtMaxSize ∨
      s.handler.maxTotalBitmapSize < t.handler.maxTotalBitmapSize := by
  rcases onItem_ok h with ⟨-, hok⟩ | ⟨-, hok⟩ | ⟨-, hok⟩ | ⟨-, -, -, rfl⟩
  · obtain ⟨total, -, hhandler⟩ := onAllocation_ok hok
    rw [hhandler, BitmapAllocationHandlerV1.takeSnapshot]
    split
    · rename_i hlt
      exact .inr hlt
    · exact .inl rfl
  · obtain ⟨total, -, hhandler⟩ := onDeallocation_ok hok
    exact .inl (by rw [hhandler])
  · exact .inl (by rw [onActivityStart_ok hok])
  · exact .inl rfl

theorem Logged.handItem (hl : Logged task.uid s)
    (hok : (handItem bitmapAllocationHandlerV1 env task data).run s = .ok u t) :
    Logged task.uid t ∧ t.handed = s.handed ++ [data] := by
  have hitem : (BitmapAllocationHandlerV1.onItem env task data).run { s with handed := s.handed ++ [data] } = .ok u t :=
    handItem_ok hok
  have hhanded : t.handed = s.handed ++ [data] := (BitmapAllocationHandlerV1.sameHanded_onItem env task data).of_ok hitem
  have hreverse : t.handed.reverse = data :: s.handed.reverse := by rw [hhanded, List.reverse_concat]
  have hfollows := hl.follows.handed hok
  refine ⟨⟨hreverse ▸ hfollows, fun hzero => ?_, ?_⟩, hhanded⟩
  · rw [hreverse] at hzero
    have hold : peak s.handed.reverse = 0 :=
      le_antisymm (hzero ▸ le_max_right _ _) (peak_nonneg _)
    rcases snapshot_onItem hitem with hsame | hlt
    · rw [hsame]
      exact hl.fresh hold
    · rw [Int64.lt_iff_toInt_lt, hfollows.peak, hzero] at hlt
      have := hl.follows.peak
      dsimp only at hlt
      omega
  · have hatoms := atoms_onItem hitem
    rw [hatoms, show Session.atoms { s with handed := s.handed ++ [data] } = s.atoms from rfl, hl.atoms, hhanded,
      List.filterMap_append, List.filterMap_cons]
    cases allocationAtom? task.uid data <;> rfl

theorem Logged.forM : ∀ {items : List BitmapAllocation} {s t : Session BitmapAllocationHandlerV1 BitmapAllocation},
    Logged task.uid s → (items.forM (UprobeStats.handItem bitmapAllocationHandlerV1 env task)).run s = .ok u t →
      Logged task.uid t ∧ t.handed = s.handed ++ items
  | [], s, t, hl, hok => by
    obtain ⟨-, rfl⟩ := pure_eq_ok.mp hok
    exact ⟨hl, (List.append_nil _).symm⟩
  | data :: items, s, t, hl, hok => by
    obtain ⟨v, hfirst, hrest⟩ := forM_cons_eq_ok.mp hok
    obtain ⟨hv, hhanded⟩ := hl.handItem hfirst
    obtain ⟨ht, hhanded'⟩ := hv.forM hrest
    exact ⟨ht, by rw [hhanded', hhanded, List.append_assoc, List.singleton_append]⟩

theorem Logged.poll (hl : Logged task.uid s) (mapPath : String) (timeout : Int32) :
    Logged task.uid { s with calls := s.calls ++ [.pollRingBuf mapPath timeout] } := by
  refine ⟨hl.follows, hl.fresh, ?_⟩
  rw [← hl.atoms, Session.atoms, List.filterMap_append]
  exact List.append_nil _

theorem Logged.default (uid : Int32) : Logged uid { handler := {} } := ⟨.default uid, fun _ => rfl, rfl⟩

end Logged

/-! ### The end of a run -/

/-- What the loop polls before its timer expires, as far as its polls succeed. -/
def polledRecords {T : Type} (duration : Nat) (rounds : List (Round T)) : List T :=
  (rounds.takeWhile (·.elapsed ≤ duration)).flatMap fun round => (round.polled.toOption).getD []

/-- A loop either hands over all that it polls and comes to its handler's end, or stops before. -/
theorem finishes_or_stops {env : Env} {task : ResolvedTask} {mapPath : String} {duration : Nat} :
    ∀ (rounds : List (Round BitmapAllocation)) (s : Session BitmapAllocationHandlerV1 BitmapAllocation),
      Logged task.uid s →
      (∃ s', Logged task.uid s' ∧ s'.handed = s.handed ++ polledRecords duration rounds ∧
        (pollLoop bitmapAllocationHandlerV1 env task mapPath duration rounds).run s =
          (BitmapAllocationHandlerV1.onFinished env >>= fun _ => pure true).run s') ∨
      ((∀ t, (pollLoop bitmapAllocationHandlerV1 env task mapPath duration rounds).run s ≠ .ok true t) ∧
        SameSnapshots s (after ((pollLoop bitmapAllocationHandlerV1 env task mapPath duration rounds).run s)))
  | [], s, _ => .inr ⟨fun t h => (by cases h), rfl⟩
  | round :: rounds, s, hl => by
    by_cases hround : round.elapsed ≤ duration
    · have hpolled : polledRecords duration (round :: rounds) =
          (round.polled.toOption).getD [] ++ polledRecords duration rounds := by
        simp [polledRecords, hround]
      rw [pollLoop, remainingMillis, if_pos hround]
      dsimp only
      cases htimeout : tryI32 ((duration - round.elapsed : Nat) : Int) with
      | error e => exact .inr ⟨fun t h => (by cases h), rfl⟩
      | ok timeout =>
        rw [run_lift_bind_of_ok rfl]
        have hpoll : SameSnapshots s { s with calls := s.calls ++ [.pollRingBuf mapPath timeout] } := by
          have hcall := @sameSnapshots_call BitmapAllocationHandlerV1 BitmapAllocation _ (.pollRingBuf mapPath timeout)
            (by rintro _ ⟨⟩) (fun _ => round.polled) s
          rwa [after_call] at hcall
        cases hresult : round.polled with
        | error e => exact .inr ⟨fun t h => (by cases h), hpoll⟩
        | ok items =>
          rw [hresult] at hpolled
          have hrun : (call (.pollRingBuf mapPath timeout) (fun _ => Except.ok items) >>= fun result => do
              result.forM (handItem bitmapAllocationHandlerV1 env task)
              pollLoop bitmapAllocationHandlerV1 env task mapPath duration rounds).run s =
              (items.forM (handItem bitmapAllocationHandlerV1 env task) >>= fun _ =>
                pollLoop bitmapAllocationHandlerV1 env task mapPath duration rounds).run
                  { s with calls := s.calls ++ [.pollRingBuf mapPath timeout] } := rfl
          rw [hrun, EStateM.run_bind]
          have hwithin : Within SameSnapshots (items.forM (handItem bitmapAllocationHandlerV1 env task)) :=
            .forM fun data _ => sameSnapshots_handItem env task data
          have hsame := hwithin { s with calls := s.calls ++ [.pollRingBuf mapPath timeout] }
          cases hitems : (items.forM (handItem bitmapAllocationHandlerV1 env task)).run
              { s with calls := s.calls ++ [.pollRingBuf mapPath timeout] } with
          | error e t =>
            rw [hitems] at hsame
            exact .inr ⟨fun t h => (by cases h), hsame.trans hpoll⟩
          | ok u t =>
            rw [hitems] at hsame
            obtain ⟨ht, hhanded⟩ := (hl.poll mapPath timeout).forM hitems
            rcases finishes_or_stops rounds t ht with ⟨s', hs', hhanded', hend⟩ | ⟨hstops, hsame'⟩
            · refine .inl ⟨s', hs', ?_, hend⟩
              rw [hhanded', hhanded, hpolled, List.append_assoc]
              rfl
            · exact .inr ⟨hstops, hsame'.trans (hsame.trans hpoll)⟩
    · have hpolled : polledRecords duration (round :: rounds) = [] := by simp [polledRecords, hround]
      rw [pollLoop, remainingMillis, if_neg hround]
      exact .inl ⟨s, hl, by rw [hpolled, List.append_nil], rfl⟩

/-! ### The snapshots -/

theorem atoms_statsWrites {α : Type} {env : Env} {atom : α → Atom} :
    ∀ (xs : List α) (s : Session BitmapAllocationHandlerV1 BitmapAllocation), ∃ n,
      (after ((xs.forM fun x => statsWrite env (atom x)).run s)).atoms = s.atoms ++ (xs.take n).map atom ∧
      (after ((xs.forM fun x => statsWrite env (atom x)).run s)).handler = s.handler ∧
      (after ((xs.forM fun x => statsWrite env (atom x)).run s)).handed = s.handed ∧
      (isOk ((xs.forM fun x => statsWrite env (atom x)).run s) = true → xs.length ≤ n)
  | [], s => ⟨0, (List.append_nil _).symm, rfl, rfl, fun _ => le_refl 0⟩
  | x :: xs, s => by
    have hcall := after_call (.statsWrite (atom x)) (env.statsWrite · (atom x)) s
    have hatoms : (after ((statsWrite env (atom x)).run s)).atoms = s.atoms ++ [atom x] := by
      rw [statsWrite, hcall, Session.atoms, List.filterMap_append]
      rfl
    rw [forM_cons, EStateM.run_bind]
    cases hrun : (statsWrite env (atom x)).run s with
    | error e t =>
      rw [hrun, after_error] at hatoms
      rw [statsWrite] at hrun
      rw [hrun, after_error] at hcall
      refine ⟨1, by simpa using hatoms, ?_, ?_, fun h => by cases h⟩ <;> rw [after_error, hcall]
    | ok u t =>
      rw [hrun, after_ok] at hatoms
      rw [statsWrite] at hrun
      rw [hrun, after_ok] at hcall
      obtain ⟨n, hn, hhandler, hhanded, hall⟩ := atoms_statsWrites xs t
      refine ⟨n + 1, ?_, ?_, ?_, fun h => Nat.succ_le_succ (hall h)⟩
      · dsimp only
        rw [hn, hatoms, List.take_succ_cons, List.map_cons, List.append_assoc, List.singleton_append]
      · exact hhandler.trans (by rw [hcall])
      · exact hhanded.trans (by rw [hcall])

/-- The end of a run writes the snapshot at the peak and then that of what is left, up to a write that fails. -/
theorem atoms_onFinished (env : Env) (s : Session BitmapAllocationHandlerV1 BitmapAllocation) : ∃ snapshotId snapshotId',
    (after ((BitmapAllocationHandlerV1.onFinished env).run s)).handed = s.handed ∧
    (after ((BitmapAllocationHandlerV1.onFinished env).run s)).atoms <+: s.atoms ++
      s.handler.bitmapSnapshotAtMaxSize.map (snapshotAtom snapshotId true) ++
      s.handler.values.map (snapshotAtom snapshotId' false) ∧
    (isOk ((BitmapAllocationHandlerV1.onFinished env).run s) = true →
      (after ((BitmapAllocationHandlerV1.onFinished env).run s)).atoms = s.atoms ++
        s.handler.bitmapSnapshotAtMaxSize.map (snapshotAtom snapshotId true) ++
        s.handler.values.map (snapshotAtom snapshotId' false)) := by
  have hsplit : (BitmapAllocationHandlerV1.onFinished env).run s =
      ((s.handler.bitmapSnapshotAtMaxSize.forM fun b => statsWrite env (snapshotAtom (env.snapshotId s.calls) true b)) >>=
        fun _ => get >>= fun s => s.handler.values.forM fun b =>
          statsWrite env (snapshotAtom (env.snapshotId s.calls) false b)).run s := rfl
  obtain ⟨n, hatoms, hhandler, hhanded, hall⟩ :=
    @atoms_statsWrites _ env (snapshotAtom (env.snapshotId s.calls) true) s.handler.bitmapSnapshotAtMaxSize s
  rw [hsplit, EStateM.run_bind]
  cases hrun : (s.handler.bitmapSnapshotAtMaxSize.forM fun b =>
      statsWrite env (snapshotAtom (env.snapshotId s.calls) true b)).run s with
  | error e t =>
    rw [hrun] at hatoms hhanded
    refine ⟨env.snapshotId s.calls, 0, hhanded, ?_, fun h => by cases h⟩
    dsimp only
    rw [hatoms, List.append_assoc, List.prefix_append_right_inj]
    exact ((List.take_prefix _ _).map _).trans (List.prefix_append _ _)
  | ok u t =>
    rw [hrun, after_ok] at hatoms hhandler hhanded
    rw [hrun] at hall
    obtain ⟨m, hatoms', -, hhanded', hall'⟩ :=
      @atoms_statsWrites _ env (snapshotAtom (env.snapshotId t.calls) false) t.handler.values t
    rw [hatoms, List.take_of_length_le (hall rfl)] at hatoms'
    refine ⟨env.snapshotId s.calls, env.snapshotId t.calls, hhanded'.trans hhanded, ?_, fun h => ?_⟩
    · refine hatoms' ▸ ?_
      rw [hhandler, List.prefix_append_right_inj]
      exact (List.take_prefix _ _).map _
    · refine hatoms'.trans ?_
      rw [List.take_of_length_le (hall' h), hhandler]

/-! ### A run -/

/-- The bitmaps that were held right after the total first had its peak, or none if it was never positive. -/
structure AtPeak (uid : Int32) (history : List BitmapAllocation) (m : AList fun _ : UInt64 => BitmapMetadata) :
    Prop where
  first : 0 < peak history → ∃ first, first <:+ history ∧ total first = peak history ∧
    (∀ earlier, earlier <:+ first → total earlier = peak history → earlier = first) ∧
    ∀ p, m.lookup p = held? uid p first
  empty : peak history = 0 → m = ∅

theorem Logged.atPeak {uid : Int32} {s : Session BitmapAllocationHandlerV1 BitmapAllocation} (hl : Logged uid s) :
    ∃ m : AList fun _ : UInt64 => BitmapMetadata, AtPeak uid s.handed.reverse m ∧
      s.handler.bitmapSnapshotAtMaxSize = m.entries.map (·.2) := by
  rcases (peak_nonneg s.handed.reverse).lt_or_eq with hpos | hzero
  · obtain ⟨first, hsuffix, htotal, hfirst, m, hm, hsnapshot⟩ := hl.follows.snapshot hpos
    exact ⟨m, ⟨fun _ => ⟨first, hsuffix, htotal, hfirst, hm⟩, fun h => absurd h hpos.ne'⟩, hsnapshot⟩
  · exact ⟨∅, ⟨fun h => absurd h hzero.not_lt, fun _ => rfl⟩, hl.fresh hzero.symm⟩

/-- What the monitor writes when all these records were taken. -/
def fullReport (uid : Int32) (records : List BitmapAllocation) (atMax left : List BitmapMetadata)
    (snapshotId snapshotId' : Int64) : List Atom :=
  records.filterMap (allocationAtom? uid) ++ atMax.map (snapshotAtom snapshotId true) ++
    left.map (snapshotAtom snapshotId' false)

/-- A run that ends well, or that has written any part of a snapshot, handed over every record that it polled and
    had each taken. It has written an atom for each allocation and then the bitmaps at the peak and those that are
    left, all of them if it ended well and else up to a write that failed. -/
theorem bitmap_run_writes (env : Env) (task : ResolvedTask) (duration : Nat) (rounds : List (Round BitmapAllocation)) :
    let records := polledRecords duration rounds
    let result := (pollLoopGeneric bitmapAllocationHandlerV1 env task bitmapAllocationHandlerV1.mapPath duration
      rounds).run { handler := bitmapAllocationHandlerV1.default }
    (after result).snapshots ≠ [] ∨ (∃ t, result = .ok true t) →
      ∃ atMax left : AList fun _ : UInt64 => BitmapMetadata, ∃ snapshotId snapshotId',
        AtPeak task.uid records.reverse atMax ∧ (∀ p, left.lookup p = held? task.uid p records.reverse) ∧
        (after result).handed = records ∧
        (after result).atoms <+: fullReport task.uid records (atMax.entries.map (·.2)) (left.entries.map (·.2))
          snapshotId snapshotId' ∧
        ((∃ t, result = .ok true t) → (after result).atoms = fullReport task.uid records
          (atMax.entries.map (·.2)) (left.entries.map (·.2)) snapshotId snapshotId') := by
  have hrun : (pollLoopGeneric bitmapAllocationHandlerV1 env task bitmapAllocationHandlerV1.mapPath duration
      rounds).run { handler := bitmapAllocationHandlerV1.default } =
      (pollLoop bitmapAllocationHandlerV1 env task bitmapAllocationHandlerV1.mapPath duration rounds).run
        { handler := bitmapAllocationHandlerV1.default } := by
    simp [pollLoopGeneric, modifyHandler]
  dsimp only
  rw [hrun]
  intro hended
  have hstart : Logged task.uid { handler := bitmapAllocationHandlerV1.default } := .default _
  rcases @finishes_or_stops env task _ _ rounds _ hstart with ⟨s, hl, hhanded, hend⟩ | ⟨hstops, hsame⟩
  · have hafter : after ((BitmapAllocationHandlerV1.onFinished env >>= fun _ => pure true).run s) =
        after ((BitmapAllocationHandlerV1.onFinished env).run s) := after_bind_pure
    obtain ⟨snapshotId, snapshotId', hfinished, hle, hall⟩ := atoms_onFinished env s
    obtain ⟨atMax, hpeak, hsnapshot⟩ := hl.atPeak
    replace hhanded : s.handed = polledRecords duration rounds := hhanded
    have hleft := hl.follows.bitmaps
    rw [hl.atoms, hsnapshot, hhanded] at hle hall
    rw [hhanded] at hpeak hleft
    rw [hend, hafter]
    refine ⟨atMax, s.handler.bitmaps, snapshotId, snapshotId', hpeak, hleft, hfinished.trans hhanded, hle, ?_⟩
    rintro ⟨t, ht⟩
    refine hall ?_
    obtain ⟨u, v, hok, -⟩ := bind_eq_ok.mp ht
    rw [hok]
    rfl
  · rcases hended with hsnapshots | ⟨t, ht⟩
    · exact absurd hsame hsnapshots
    · exact absurd ht (hstops t)

/-- Two bitmaps are allocated and one of them freed: two atoms for the allocations, two for the peak and one for
    what is left. -/
def mixedRun : EStateM.Result Error (Session BitmapAllocationHandlerV1 BitmapAllocation) Bool :=
  (pollLoopGeneric bitmapAllocationHandlerV1 quietEnv someTask bitmapAllocationHandlerV1.mapPath 1000
    [⟨0, .ok (mixedRecords.take 4)⟩, ⟨1001, .ok []⟩]).run { handler := bitmapAllocationHandlerV1.default }

theorem bitmap_run_writes_mixed : ∃ atMax left : AList fun _ : UInt64 => BitmapMetadata, ∃ snapshotId snapshotId',
    left.lookup 16 = held? 1000 16 (mixedRecords.take 4).reverse ∧ (after mixedRun).atoms.length = 5 ∧
      (after mixedRun).atoms = fullReport 1000 (mixedRecords.take 4) (atMax.entries.map (·.2)) (left.entries.map (·.2))
        snapshotId snapshotId' := by
  have hok : ∃ t, mixedRun = .ok true t := by
    obtain ⟨b, t, hrun, hb⟩ := @exists_of_any_value? _ _ _ mixedRun id (by decide +kernel)
    exact ⟨t, by rw [hrun, show b = true from hb]⟩
  obtain ⟨atMax, left, snapshotId, snapshotId', -, hleft, -, -, hatoms⟩ :=
    bitmap_run_writes quietEnv someTask 1000 [⟨0, .ok (mixedRecords.take 4)⟩, ⟨1001, .ok []⟩] (.inr hok)
  exact ⟨atMax, left, snapshotId, snapshotId', hleft 16, by decide +kernel, hatoms hok⟩

end UprobeStats
